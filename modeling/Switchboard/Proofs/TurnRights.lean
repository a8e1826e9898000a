import Switchboard.Proofs.StoredViews
import Switchboard.Proofs.ToolRights
import Switchboard.Proofs.TurnParts

/-! What a turn may ask of the world: of the stores only what concerns its own conversation, and of
the tool servers nothing before they have listed their tools. -/
namespace Switchboard

theorem Program.Guarded.of_only {Op : Type} {Ans : Op → Type} {α : Type} {P : Op → Prop}
    {may may' : List (Sigma Ans) → Op → Prop} {p : Program Op Ans α}
    {past past' : List (Sigma Ans)} (hp : p.Guarded may past) (honly : p.Only P)
    (h : ∀ t op, P op → may (past ++ t) op → may' (past' ++ t) op) : p.Guarded may' past' := by
  induction p generalizing past past' with
  | done a => trivial
  | ask op next ih =>
    constructor
    · have hnow := h [] op honly.1
      rw [List.append_nil, List.append_nil] at hnow
      exact hnow hp.1
    · intro x
      apply ih x (hp.2 x) (honly.2 x)
      intro t op' hop hmay
      rw [List.append_assoc] at hmay ⊢
      exact h _ op' hop hmay

namespace Request

variable {conversation : String} {r : Request}

theorem concerns_of_none (h : r.conversation? = none) : r.Concerns conversation := by
  intro c hc
  rw [h] at hc
  cases hc

theorem concerns_of_some (h : r.conversation? = some conversation) : r.Concerns conversation := by
  intro c hc
  rw [h] at hc
  exact (Option.some.inj hc).symm

theorem conversation?_of_ofRun (h : r.OfRun) : r.conversation? = none := by
  cases r <;> first | rfl | exact absurd h id

end Request

def Trace.Lists (past : Trace) : Prop := ∃ live, (⟨.allTools, .ok live⟩ : Exchange) ∈ past

theorem Trace.lists_append_right {past t : Trace} (h : t.Lists) : Lists (past ++ t) := by
  obtain ⟨live, hlive⟩ := h
  exact ⟨live, List.mem_append_right past hlive⟩

theorem Skill.Allows.lists {skill : Skill} {past : Trace} {tool : Handle}
    (h : skill.Allows past tool) : past.Lists := by
  obtain ⟨live, hlive, -⟩ := h
  have hmem : Except.ok live ∈ past.listings := by rw [hlive]; exact List.mem_singleton.mpr rfl
  obtain ⟨⟨r, answer⟩, hx, hlisting⟩ := List.mem_filterMap.mp hmem
  cases r <;> cases hlisting
  exact ⟨live, hx⟩

namespace Dialogue

/-- The requests that a turn of the conversation may make after these exchanges. -/
def May (conversation : String) (past : Trace) : Request → Prop
  | .invoke .. => past.Lists
  | r => r.Concerns conversation

theorem May.concerns {conversation : String} {past : Trace} {r : Request}
    (h : May conversation past r) : r.Concerns conversation := by
  cases r with
  | invoke => exact Request.concerns_of_none rfl
  | _ => exact h

/-- Whatever went before, the dialogue makes only requests that a turn of the conversation may. -/
def KeepsTo (conversation : String) {α : Type} (d : Dialogue α) : Prop :=
  ∀ past : Trace, d.Guarded (May conversation) past

variable {conversation : String} {α β : Type}

theorem keepsTo_done (a : α) : KeepsTo conversation (Program.done a) := fun _ => trivial

theorem keepsTo_ask {r : Request} {next : r.Answer → Dialogue α}
    (hr : ∀ past, May conversation past r) (h : ∀ x, KeepsTo conversation (next x)) :
    KeepsTo conversation (Program.ask r next) := fun past => ⟨hr past, fun x => h x _⟩

theorem KeepsTo.bind {d : Dialogue α} {f : α → Dialogue β} (hd : d.KeepsTo conversation)
    (hf : ∀ a, (f a).KeepsTo conversation) : KeepsTo conversation (d >>= f) :=
  fun past => (hd past).bind fun t a _ => hf a (past ++ t)

/-- No run of an intent asks the stores, and it calls only tools that were listed for it. -/
theorem keepsTo_execute (e : Engine) (skill : Skill) (task : String) (asks : Nat) :
    KeepsTo conversation (e.execute skill task asks) := by
  intro past
  refine Engine.execute_guarded.of_only (Engine.execute_only asks) fun t r hr hmay => ?_
  cases r with
  | invoke tool args => exact Trace.lists_append_right hmay.1.lists
  | _ => exact Request.concerns_of_none (Request.conversation?_of_ofRun hr)

end Dialogue

namespace Batch
open Dialogue

variable {conversation : String} {α β : Type}

theorem keepsTo_work {x : Work α} {f : α → Work β} (hx : KeepsTo conversation x.run)
    (hf : ∀ a, KeepsTo conversation (f a).run) : KeepsTo conversation (x >>= f).run := by
  refine hx.bind fun result => ?_
  cases result with
  | error err => exact keepsTo_done _
  | ok a => exact hf a

theorem keepsTo_tell (event : Event) : KeepsTo conversation (tell event).run := by
  refine keepsTo_ask (fun _ => Request.concerns_of_none rfl) fun taken => ?_
  cases taken <;> exact keepsTo_done _

theorem keepsTo_send {r : Request} (hr : r.conversation? = some conversation) :
    KeepsTo conversation r.send := by
  refine keepsTo_ask (fun past => ?_) keepsTo_done
  cases r <;> first | exact Request.concerns_of_some hr | cases hr

theorem keepsTo_runIntent (e : Engine) (c : Catalog) (total number : Nat) (i : Intent) :
    KeepsTo conversation (runIntent e c conversation total number i).run := by
  unfold runIntent
  apply keepsTo_work (keepsTo_done _)
  intro skill
  apply keepsTo_work (keepsTo_tell _)
  intro _
  apply keepsTo_work (keepsTo_send rfl)
  intro asks
  apply keepsTo_work (keepsTo_execute e skill i.task asks)
  intro outcome
  exact keepsTo_work (keepsTo_send rfl) fun _ => keepsTo_done _

theorem keepsTo_runIntents (e : Engine) (c : Catalog) (total number : Nat) (intents : List Intent)
    (tally : Tally) :
    KeepsTo conversation (runIntents e c conversation total number intents tally).run := by
  induction intents generalizing number tally with
  | nil => exact keepsTo_done _
  | cons i rest ih =>
    unfold runIntents
    split
    · exact keepsTo_work (keepsTo_send rfl) fun _ => keepsTo_done _
    · exact keepsTo_work (keepsTo_runIntent e c total number i) fun outcome => ih _ _

theorem keepsTo_finish (tally : Tally) : KeepsTo conversation (finish tally).run := by
  unfold finish
  split
  · exact keepsTo_done _
  · exact keepsTo_work (keepsTo_tell _) fun _ => keepsTo_done _
  · exact keepsTo_done _
  · exact keepsTo_done _
  · apply keepsTo_work (keepsTo_tell _)
    intro _
    refine keepsTo_ask (fun _ => Request.concerns_of_none rfl) fun reply => ?_
    exact keepsTo_work (keepsTo_tell _) fun _ => keepsTo_done _

theorem keepsTo_conclude (ended : Tally × Nat) :
    KeepsTo conversation (conclude conversation ended).run := by
  have hreport : KeepsTo conversation (report ended).run :=
    keepsTo_work (keepsTo_finish _) fun _ => keepsTo_done _
  unfold conclude
  split
  · exact hreport
  · exact keepsTo_work (keepsTo_send rfl) fun _ => hreport

theorem keepsTo_batch (e : Engine) (c : Catalog) (intents : List Intent) :
    KeepsTo conversation (Batch.execute e c conversation intents).run := by
  rw [execute_eq]
  have hrest : KeepsTo conversation (runIntents e c conversation intents.length 1 intents {} >>=
      conclude conversation).run := keepsTo_work
      (keepsTo_runIntents e c intents.length 1 intents {}) keepsTo_conclude
  split
  · exact keepsTo_work (keepsTo_tell _) fun _ => hrest
  · exact hrest

end Batch

namespace Agent
open Dialogue Batch

variable {conversation : String}

theorem keepsTo_popPending : KeepsTo conversation (popPending conversation) := by
  apply (keepsTo_send rfl).bind
  intro got
  cases got with
  | error err => exact keepsTo_done _
  | ok intents =>
    dsimp only
    split
    · exact keepsTo_done _
    · apply (keepsTo_send rfl).bind
      intro cleared
      cases cleared <;> exact keepsTo_done _

theorem keepsTo_remember (m : Message) : KeepsTo conversation (remember conversation m) :=
  (keepsTo_send rfl).bind fun _ => keepsTo_done _

theorem keepsTo_candidates (index : Skill.Index) (hasEmbedder : Bool) (c : Catalog)
    (message : String) : KeepsTo conversation (index.candidates hasEmbedder c message) := by
  unfold Skill.Index.candidates Skill.Index.candidatesBy
  split
  · exact keepsTo_done _
  · split
    · exact keepsTo_done _
    · refine keepsTo_ask (fun _ => Request.concerns_of_none rfl) fun answer => ?_
      dsimp only [Program.bind]
      split <;> exact keepsTo_done _

theorem keepsTo_gather (a : Agent) (message : String) :
    KeepsTo conversation (a.gather conversation message) := by
  apply (keepsTo_send rfl).bind
  intro memory
  apply KeepsTo.bind (keepsTo_candidates a.index a.hasEmbedder a.catalog message)
  intro candidates
  refine keepsTo_ask (fun _ => Request.concerns_of_none rfl) fun reply => ?_
  refine keepsTo_ask (fun _ => Request.concerns_of_none rfl) fun closed => ?_
  cases closed with
  | true => exact keepsTo_done _
  | false =>
    apply keepsTo_popPending.bind
    intro pending
    exact (keepsTo_remember _).bind fun _ => keepsTo_done _

theorem keepsTo_carryOut (a : Agent) (gathered : Except TurnError (List Intent)) :
    KeepsTo conversation (a.carryOut conversation gathered) := by
  cases gathered with
  | error err => exact keepsTo_done _
  | ok intents =>
    apply KeepsTo.bind (keepsTo_batch a.engine a.catalog intents)
    intro result
    unfold keep
    split
    · exact keepsTo_done _
    · split
      · exact (keepsTo_remember _).bind fun _ => keepsTo_done _
      · exact keepsTo_done _

theorem keepsTo_closeTurn (result : Except TurnError Unit) :
    KeepsTo conversation (closeTurn result) := by
  have hemit (event : Event) : KeepsTo conversation (emit event) :=
    keepsTo_ask (fun _ => Request.concerns_of_none rfl) keepsTo_done
  have hend : KeepsTo conversation (do let _ ← emit .done : Dialogue Unit) :=
    (hemit _).bind fun _ => keepsTo_done _
  unfold closeTurn
  split
  · exact hend
  · refine keepsTo_ask (fun _ => Request.concerns_of_none rfl) fun closed => ?_
    cases closed with
    | true => exact hend
    | false => exact (hemit _).bind fun _ => hend
  · exact (hemit _).bind fun _ => hend

/-- A turn asks the stores of its own conversation only, and calls tools only after they were
listed. -/
theorem keepsTo_turn (a : Agent) (conversation message : String) :
    KeepsTo conversation (a.turn conversation message) := by
  have hrun : KeepsTo conversation (a.runTurn conversation message) := by
    rw [runTurn_eq]
    refine keepsTo_ask (fun _ => Request.concerns_of_none rfl) fun taken => ?_
    cases taken with
    | true => exact (a.keepsTo_gather message).bind a.keepsTo_carryOut
    | false => exact keepsTo_done _
  exact hrun.bind keepsTo_closeTurn

end Agent
end Switchboard
