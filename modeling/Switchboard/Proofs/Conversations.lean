import Switchboard.Proofs.SteadyServers
import Switchboard.Proofs.TurnEvents
import Switchboard.Proofs.TurnRights
import Switchboard.Skill.Prompts

/-! Many conversations on one agent. What they share are the stores, the connections and the prompts
that were read; none of it tells one conversation of another. -/
namespace Switchboard

namespace Catalog

variable {c : Catalog} {files : String → Option String} {kept : Prompts}

/-- The prompts that are kept are those that reading them again would give. -/
def Keeps (c : Catalog) (files : String → Option String) (kept : Prompts) : Prop :=
  ∀ name p, kept.get? name = some p → (c.prompt files name []).1 = .ok p

theorem keeps_nil : c.Keeps files [] := fun _ _ h => nomatch h

/-- While files do not change it makes no difference which prompts are kept. -/
theorem prompt_of_keeps (h : c.Keeps files kept) (name : String) :
    (c.prompt files name kept).1 = (c.prompt files name []).1 := by
  rw [prompt_fst]
  cases hkept : kept.get? name with
  | some p => exact (h name p hkept).symm
  | none => rfl

theorem keeps_prompt (h : c.Keeps files kept) (name : String) :
    c.Keeps files (c.prompt files name kept).2 := by
  intro other p hp
  by_cases hother : other = name
  · subst hother
    rw [get?_prompt_self, prompt_of_keeps h] at hp
    exact toOption_eq_some.mp hp
  · rw [get?_prompt_of_ne _ _ _ _ hother] at hp
    exact h other p hp

end Catalog

/-- An agent and its servers, where all that is not its own answers as a function of the request:
the model, the embedder, the files of the prompts and the servers, which never fail. -/
structure Site where
  agent : Agent
  pool : Pool
  model : List Message → Except ModelError String
  embedder : List String → Except ModelError (List Embedding)
  files : String → Option String
  servers : Pool.Steady

/-- What a turn leaves to all later ones. -/
structure Shared where
  stores : Stores
  table : Pool.Table
  kept : Catalog.Prompts

namespace Site
open Dialogue

variable {w : Site} {s s' s₁ s₁' s₂ : Shared} {conversation : String} {past t : Trace}
  {r : Request} {α : Type}

/-- How an exchange goes at the site, and what it leaves. The listener stays and the stores do
not fail. -/
def Meets (w : Site) (s : Shared) (x : Exchange) (s' : Shared) : Prop :=
  match x with
  | ⟨.complete messages, answer⟩ => answer = w.model messages ∧ s' = s
  | ⟨.embed texts, answer⟩ => answer = w.embedder texts ∧ s' = s
  | ⟨.prompt name, answer⟩ => answer = (w.agent.catalog.prompt w.files name s.kept).1 ∧
    s' = { s with kept := (w.agent.catalog.prompt w.files name s.kept).2 }
  | ⟨.allTools, answer⟩ => ∃ cs table, Pool.Leads w.pool.allTools s.table cs answer table ∧
    (∀ x ∈ cs, w.servers.Answers x) ∧ s' = { s with table }
  | ⟨.invoke tool args, answer⟩ => ∃ cs table,
    Pool.Leads (w.pool.call tool args) s.table cs answer table ∧
      (∀ x ∈ cs, w.servers.Answers x) ∧ s' = { s with table }
  | ⟨.emit _, answer⟩ => answer = true ∧ s' = s
  | ⟨.isClosed, answer⟩ => answer = false ∧ s' = s
  | ⟨r, answer⟩ => s.stores.Answers ⟨r, answer⟩ ∧ s' = { s with stores := s.stores.after r }

/-- A dialogue goes at the site from one state to the other: with these exchanges, and to its end
with this value. -/
inductive Goes (w : Site) {α : Type} : Shared → Dialogue α → Trace → α → Shared → Prop where
  | done (s : Shared) (a : α) : Goes w s (Program.done a) [] a s
  | ask {s s' s'' : Shared} {r : Request} {next : r.Answer → Dialogue α} (x : r.Answer) {t : Trace}
    {a : α} : w.Meets s ⟨r, x⟩ s' → Goes w s' (next x) t a s'' →
    Goes w s (Program.ask r next) (⟨r, x⟩ :: t) a s''

structure Turn where
  conversation : String
  message : String
  events : List Event

def Turn.asked (turn : Turn) : String × String := (turn.conversation, turn.message)

inductive Turns (w : Site) : Shared → List Turn → Shared → Prop where
  | nil (s : Shared) : Turns w s [] s
  | cons {s s' s'' : Shared} {conversation message : String} {t : Trace} {turns : List Turn} :
    w.Goes s (w.agent.turn conversation message) t () s' → Turns w s' turns s'' →
    Turns w s (⟨conversation, message, t.events⟩ :: turns) s''

/-- The rows of the stores are numbered in order, and the prompts that are kept are the right ones;
so it is of empty stores with nothing kept. -/
structure Sound (w : Site) (s : Shared) : Prop where
  ordered : s.stores.Ordered
  kept : w.agent.catalog.Keeps w.files s.kept

/-- Two states that a conversation cannot tell apart after these exchanges of its turn. -/
structure Alike (w : Site) (conversation : String) (past : Trace) (s s' : Shared) : Prop where
  left : w.Sound s
  right : w.Sound s'
  kind : Stores.SameKind s.stores s'.stores
  view : s.stores.view conversation = s'.stores.view conversation
  address : w.pool.addressOf s.table = w.pool.addressOf s'.table
  ready : past.Lists → w.pool.Ready s.table ∧ w.pool.Ready s'.table

theorem meets_of_store {answer : r.Answer} (hr : r.conversation?.isSome) :
    w.Meets s ⟨r, answer⟩ s' ↔
      s.stores.Answers ⟨r, answer⟩ ∧ s' = { s with stores := s.stores.after r } := by
  cases r <;> first | rfl | cases hr

/-- All that an exchange changes: what the request does to the stores, and otherwise neither where
the servers are found nor which prompts are right. Servers that are connected stay so. -/
structure Changes (w : Site) (s : Shared) (x : Exchange) (s' : Shared) : Prop where
  stores : s'.stores = s.stores.after x.1
  address : w.pool.addressOf s'.table = w.pool.addressOf s.table
  ready : (x.listing? = none → w.pool.Ready s.table) → w.pool.Ready s'.table
  kept : w.agent.catalog.Keeps w.files s.kept → w.agent.catalog.Keeps w.files s'.kept

theorem changes_of_meets {x : Exchange} (h : w.Meets s x s') : w.Changes s x s' := by
  obtain ⟨r, answer⟩ := x
  by_cases hr : r.conversation?.isSome
  · obtain ⟨-, rfl⟩ := (meets_of_store hr).mp h
    have hnone : Exchange.listing? ⟨r, answer⟩ = none := by cases r <;> first | rfl | cases hr
    exact ⟨rfl, rfl, fun hready => hready hnone, id⟩
  cases r with
  | prompt name =>
    obtain ⟨-, rfl⟩ := h
    exact ⟨rfl, rfl, fun hready => hready rfl, fun hkept => Catalog.keeps_prompt hkept name⟩
  | allTools =>
    obtain ⟨cs, table, hleads, hcs, rfl⟩ := h
    obtain ⟨-, haddress, hready⟩ := Pool.steady_allTools hleads hcs
    exact ⟨rfl, haddress, fun _ => hready, id⟩
  | invoke tool args =>
    obtain ⟨cs, table, hleads, -, rfl⟩ := h
    obtain ⟨-, rfl⟩ := Pool.leads_of_called.mp hleads
    exact ⟨rfl, rfl, fun hready => hready rfl, id⟩
  | complete | embed | emit | isClosed =>
    obtain ⟨-, rfl⟩ := h
    exact ⟨rfl, rfl, fun hready => hready rfl, id⟩
  | stall => exact nomatch answer
  | _ => exact absurd rfl hr

theorem Sound.step {x : Exchange} (hs : w.Sound s) (h : w.Meets s x s') : w.Sound s' := by
  have hchanges := changes_of_meets h
  constructor
  · rw [hchanges.stores]
    exact hs.ordered.after x.1
  · exact hchanges.kept hs.kept

theorem Sound.of_goes {d : Dialogue α} {a : α} (hs : w.Sound s) (h : w.Goes s d t a s') :
    w.Sound s' := by
  induction h with
  | done => exact hs
  | ask x hx _ ih => exact ih (hs.step hx)

theorem serve_of_goes {d : Dialogue α} {a : α} (h : w.Goes s d t a s') :
    s.stores.Serve t s'.stores := by
  induction h with
  | done s => exact .nil s.stores
  | @ask s s₁ s' r next x t a hx _ ih =>
    have hanswers : s.stores.Answers ⟨r, x⟩ := by
      by_cases hr : r.conversation?.isSome
      · exact ((meets_of_store hr).mp hx).1
      · cases r <;> trivial
    rw [(changes_of_meets hx).stores] at ih
    exact .cons hanswers ih

/-- Everything that a turn may ask is answered, but for a dialogue that is stalled. -/
theorem exists_meets (w : Site) (s : Shared) (hr : r ≠ .stall) :
    ∃ answer s', w.Meets s ⟨r, answer⟩ s' := by
  by_cases hstore : r.conversation?.isSome
  · obtain ⟨answer, hanswer⟩ := s.stores.exists_answers hstore
    exact ⟨answer, _, (meets_of_store hstore).mpr ⟨hanswer, rfl⟩⟩
  cases r with
  | allTools =>
    obtain ⟨cs, answer, table, hleads, hcs⟩ := w.pool.exists_steady_allTools w.servers s.table
    exact ⟨answer, _, cs, table, hleads, hcs, rfl⟩
  | invoke tool args =>
    obtain ⟨cs, answer, hcalled, hcs⟩ := w.pool.exists_steady_call w.servers s.table tool args
    exact ⟨answer, _, cs, _, Pool.leads_of_called.mpr ⟨hcalled, rfl⟩, hcs, rfl⟩
  | complete | embed | emit | isClosed | prompt => exact ⟨_, _, rfl, rfl⟩
  | stall => exact absurd rfl hr
  | _ => exact absurd rfl hstore

/-- Where a conversation cannot tell two states apart it gets the same answers. -/
theorem answer_of_alike {answer answer' : r.Answer} (ha : w.Alike conversation past s s')
    (hmay : May conversation past r) (h : w.Meets s ⟨r, answer⟩ s₁)
    (h' : w.Meets s' ⟨r, answer'⟩ s₁') : answer = answer' := by
  by_cases hr : r.conversation?.isSome
  · exact Stores.answer_of_view hr hmay.concerns ha.view ((meets_of_store hr).mp h).1
      ((meets_of_store hr).mp h').1
  cases r with
  | prompt name =>
    rw [h.1, h'.1, Catalog.prompt_of_keeps ha.left.kept, Catalog.prompt_of_keeps ha.right.kept]
  | allTools =>
    obtain ⟨cs, table, hleads, hcs, -⟩ := h
    obtain ⟨cs', table', hleads', hcs', -⟩ := h'
    rw [(Pool.steady_allTools hleads hcs).1, (Pool.steady_allTools hleads' hcs').1, ha.address]
  | invoke tool args =>
    obtain ⟨cs, table, hleads, hcs, -⟩ := h
    obtain ⟨cs', table', hleads', hcs', -⟩ := h'
    obtain ⟨hready, hready'⟩ := ha.ready hmay
    rw [Pool.steady_call (Pool.leads_of_called.mp hleads).1 hcs hready,
      Pool.steady_call (Pool.leads_of_called.mp hleads').1 hcs' hready', ha.address]
  | complete | embed | emit | isClosed => exact h.1.trans h'.1.symm
  | stall => exact nomatch answer
  | _ => exact absurd rfl hr

/-- An exchange leaves two such states alike. -/
theorem Alike.step {answer : r.Answer} (ha : w.Alike conversation past s s')
    (h : w.Meets s ⟨r, answer⟩ s₁) (h' : w.Meets s' ⟨r, answer⟩ s₁') :
    w.Alike conversation (past ++ [⟨r, answer⟩]) s₁ s₁' := by
  have hchanges := changes_of_meets h
  have hchanges' := changes_of_meets h'
  constructor
  case left => exact ha.left.step h
  case right => exact ha.right.step h'
  case kind =>
    rw [hchanges.stores, hchanges'.stores]
    exact (Stores.sameKind_after _ r).symm.trans (ha.kind.trans (Stores.sameKind_after _ r))
  case view =>
    rw [hchanges.stores, hchanges'.stores]
    exact Stores.view_after ha.kind ha.left.ordered ha.right.ordered ha.view r
  case address => rw [hchanges.address, hchanges'.address, ha.address]
  case ready =>
    rintro ⟨live, hlive⟩
    -- If this exchange did not list the tools, they had been listed before it.
    have hbefore (hnot : Exchange.listing? ⟨r, answer⟩ = none) : past.Lists := by
      refine ⟨live, (List.mem_append.mp hlive).resolve_right fun hlast => ?_⟩
      rw [← List.mem_singleton.mp hlast] at hnot
      cases hnot
    exact ⟨hchanges.ready fun hnot => (ha.ready (hbefore hnot)).1,
      hchanges'.ready fun hnot => (ha.ready (hbefore hnot)).2⟩

/-- Between turns a conversation does not notice the exchanges of others. -/
theorem Alike.step_of_ne {x : Exchange} {other : String} (ha : w.Alike conversation [] s s')
    (h : w.Meets s x s₁) (hx : x.1.Concerns other) (hne : conversation ≠ other) :
    w.Alike conversation [] s₁ s' := by
  have hchanges := changes_of_meets h
  have hother : x.1.conversation? ≠ some conversation := fun he => hne (hx conversation he)
  constructor
  case left => exact ha.left.step h
  case right => exact ha.right
  case kind =>
    rw [hchanges.stores]
    exact (Stores.sameKind_after _ x.1).symm.trans ha.kind
  case view =>
    rw [hchanges.stores, Stores.view_after_of_ne ha.left.ordered hother]
    exact ha.view
  case address => rw [hchanges.address, ha.address]
  case ready => exact fun ⟨_, hlive⟩ => absurd hlive List.not_mem_nil

/-- After a turn it no longer counts what was listed in it. -/
theorem Alike.between (ha : w.Alike conversation past s s') : w.Alike conversation [] s s' :=
  { ha with ready := fun ⟨_, hlive⟩ => absurd hlive List.not_mem_nil }

theorem Sound.alike (hs : w.Sound s) (conversation : String) : w.Alike conversation [] s s :=
  ⟨hs, hs, .refl _, rfl, rfl, fun ⟨_, hlive⟩ => absurd hlive List.not_mem_nil⟩

section
variable {d : Dialogue α} {a a' : α} {t' : Trace}

/-- Between its turns a conversation does not notice those of others. -/
theorem Alike.of_goes_ne {other : String} (h : w.Goes s d t a s₁)
    (hd : d.Guarded (May other) past) (hne : conversation ≠ other)
    (ha : w.Alike conversation [] s s') : w.Alike conversation [] s₁ s' := by
  induction h generalizing past with
  | done => exact ha
  | ask x hx _ ih => exact ih (hd.2 x) (ha.step_of_ne hx hd.1.concerns hne)

/-- A dialogue of the conversation goes the same way from two states that are alike, and leaves them
alike. -/
theorem goes_unique (hd : d.Guarded (May conversation) past)
    (ha : w.Alike conversation past s s') (h : w.Goes s d t a s₁) (h' : w.Goes s' d t' a' s₁') :
    t' = t ∧ a' = a ∧ w.Alike conversation (past ++ t) s₁ s₁' := by
  induction h generalizing past s' t' with
  | done s b =>
    cases h'
    rw [List.append_nil]
    exact ⟨rfl, rfl, ha⟩
  | @ask s s₂ s₁ r next x t a hx _ ih =>
    cases h' with
    | ask x' hx' h' =>
      obtain rfl : x = x' := answer_of_alike ha hd.1 hx hx'
      obtain ⟨rfl, rfl, halike⟩ := ih (hd.2 x) (ha.step hx hx') h'
      rw [List.append_cons]
      exact ⟨rfl, rfl, halike⟩

/-- What goes in one state goes in another that the conversation cannot tell from it. -/
theorem exists_goes (hd : d.Guarded (May conversation) past)
    (ha : w.Alike conversation past s s') (h : w.Goes s d t a s₁) :
    ∃ s₁', w.Goes s' d t a s₁' := by
  induction h generalizing past s' with
  | done s b => exact ⟨s', .done s' b⟩
  | @ask s s₂ s₁ r next x t a hx _ ih =>
    have hr : r ≠ .stall := by
      rintro rfl
      exact nomatch x
    obtain ⟨x', s₂', hx'⟩ := w.exists_meets s' hr
    obtain rfl : x = x' := answer_of_alike ha hd.1 hx hx'
    obtain ⟨s₁', h'⟩ := ih (hd.2 x) (ha.step hx hx')
    exact ⟨s₁', .ask x hx' h'⟩

end

def turnsOf (conversation : String) (turns : List Turn) : List Turn :=
  turns.filter (·.conversation = conversation)

section
variable {turns alone : List Turn}

theorem turnsOf_cons_self (message : String) (events : List Event) :
    turnsOf conversation (⟨conversation, message, events⟩ :: turns) =
      ⟨conversation, message, events⟩ :: turnsOf conversation turns :=
  List.filter_cons_of_pos (decide_eq_true rfl)

theorem turnsOf_cons_of_ne {other : String} (hne : conversation ≠ other) (message : String)
    (events : List Event) :
    turnsOf conversation (⟨other, message, events⟩ :: turns) = turnsOf conversation turns :=
  List.filter_cons_of_neg fun h => hne (of_decide_eq_true h).symm

theorem exists_turnsOf (h : w.Turns s turns s₁) (ha : w.Alike conversation [] s s') :
    ∃ s₁', w.Turns s' (turnsOf conversation turns) s₁' ∧ w.Alike conversation [] s₁ s₁' := by
  induction h generalizing s' with
  | nil s => exact ⟨s', .nil s', ha⟩
  | @cons s s₁ s₂ other message t turns hgoes _ ih =>
    have hturn := w.agent.keepsTo_turn other message []
    by_cases hc : conversation = other
    · subst hc
      obtain ⟨s₁', hgoes'⟩ := exists_goes hturn ha hgoes
      obtain ⟨-, -, halike⟩ := goes_unique hturn ha hgoes hgoes'
      obtain ⟨s₂', hturns, hend⟩ := ih halike.between
      rw [turnsOf_cons_self]
      exact ⟨s₂', .cons hgoes' hturns, hend⟩
    · rw [turnsOf_cons_of_ne hc]
      exact ih (ha.of_goes_ne hgoes hturn hc)

/-- Turns of one conversation with the same messages go the same way from states that it cannot tell
apart. -/
theorem turns_unique {own : List Turn} (hown : ∀ turn ∈ own, turn.conversation = conversation)
    (h : w.Turns s own s₁) (ha : w.Alike conversation [] s s') (h' : w.Turns s' alone s₁')
    (hasked : alone.map Turn.asked = own.map Turn.asked) :
    alone = own ∧ w.Alike conversation [] s₁ s₁' := by
  induction h generalizing s' alone with
  | nil s =>
    obtain rfl := List.map_eq_nil_iff.mp hasked
    cases h'
    exact ⟨rfl, ha⟩
  | @cons s s₁ s₂ c message t turns hgoes _ ih =>
    obtain ⟨rfl, hown⟩ := List.forall_mem_cons.mp hown
    cases h' with
    | nil => cases hasked
    | @cons _ s₁' _ c' message' t' turns' hgoes' hturns' =>
      obtain ⟨hfirst, hrest⟩ := List.cons.inj hasked
      obtain ⟨rfl, rfl⟩ := Prod.mk.inj hfirst
      have hturn := w.agent.keepsTo_turn c' message' []
      obtain ⟨rfl, -, halike⟩ := goes_unique hturn ha hgoes hgoes'
      obtain ⟨rfl, hend⟩ := ih hown halike.between hturns' hrest
      exact ⟨rfl, hend⟩

/-- Conversations do not influence each other. However complete turns of many conversations follow
one another, the turns of one of them can be had without the others, from the same state on, and
whenever its messages alone are put in their order they tell the same events and leave the
conversation the same messages, pending intents and counts of questions. -/
theorem turns_separate (hs : w.Sound s) (h : w.Turns s turns s₁) (conversation : String) :
    (∃ s₂, w.Turns s (turnsOf conversation turns) s₂) ∧
      ∀ alone s₂, w.Turns s alone s₂ →
        alone.map Turn.asked = (turnsOf conversation turns).map Turn.asked →
          alone = turnsOf conversation turns ∧
            s₂.stores.view conversation = s₁.stores.view conversation := by
  obtain ⟨s₂, hturns, hend⟩ := exists_turnsOf h (hs.alike conversation)
  refine ⟨⟨s₂, hturns⟩, fun alone s₃ halone hasked => ?_⟩
  have hown : ∀ turn ∈ turnsOf conversation turns, turn.conversation = conversation :=
    fun turn hm => of_decide_eq_true (List.mem_filter.mp hm).2
  obtain ⟨rfl, hsame⟩ := turns_unique hown hturns (hs.alike conversation) halone hasked
  exact ⟨rfl, hsame.view.symm.trans hend.view.symm⟩

/-- An agent whose skills answer directly, with a model that always says the same. -/
def sampleSite : Site where
  agent := { Agent.sampleAgent with engine := ⟨{ mode := .direct }, 1⟩ }
  pool := ⟨[], 5, 30⟩
  model := fun _ => .ok "好"
  embedder := fun _ => .ok []
  files := fun _ => none
  servers := ⟨fun _ => [], fun _ _ _ => ""⟩

@[inherit_doc sampleSite]
theorem sample_goes (hs : sampleSite.Sound s) (hnone : ∀ c, s.stores.getIntents c = [])
    (conversation message : String) : ∃ t s₁,
    sampleSite.Goes s (sampleSite.agent.turn conversation message) t () s₁ ∧
      Trace.events t = [.planning Agent.startNotice, .skillStart 1 1 "weather" message,
        .result "好", .done] ∧ sampleSite.Sound s₁ ∧ ∀ c, s₁.stores.getIntents c = [] := by
  have hprompt : (sampleSite.agent.catalog.prompt sampleSite.files "weather" s.kept).1 =
      .ok "p" := (Catalog.prompt_of_keeps hs.kept "weather").trans rfl
  obtain ⟨t, s₁, hgoes, hevents, hkeeps⟩ : ∃ t s₁,
      sampleSite.Goes s (sampleSite.agent.turn conversation message) t () s₁ ∧
      Trace.events t = [.planning Agent.startNotice, .skillStart 1 1 "weather" message,
        .result "好", .done] ∧ ∀ x ∈ t, x.1.KeepsPending := by
    refine ⟨_, _, .ask (r := .emit _) true ⟨rfl, rfl⟩ (.ask (r := .readMemory _) _ ⟨rfl, rfl⟩
      (.ask (r := .complete _) _ ⟨rfl, rfl⟩ (.ask (r := .isClosed) _ ⟨rfl, rfl⟩
      (.ask (r := .getPending _) (.ok []) ⟨congrArg Except.ok (hnone _).symm, rfl⟩
      (.ask (r := .appendMemory _ _) _ ⟨rfl, rfl⟩ (.ask (r := .emit _) true ⟨rfl, rfl⟩
      (.ask (r := .askStreak _ _) _ ⟨rfl, rfl⟩ (.ask (r := .prompt _) (.ok "p") ⟨hprompt.symm, rfl⟩
      (.ask (r := .complete _) _ ⟨rfl, rfl⟩ (.ask (r := .isClosed) _ ⟨rfl, rfl⟩
      (.ask (r := .emit _) true ⟨rfl, rfl⟩ (.ask (r := .setAskStreak _ _ _) _ ⟨rfl, rfl⟩
      (.ask (r := .clearAskStreaks _) _ ⟨rfl, rfl⟩ (.ask (r := .appendMemory _ _) _ ⟨rfl, rfl⟩
      (.ask (r := .emit _) true ⟨rfl, rfl⟩ (.done _ _)))))))))))))))), rfl, ?_⟩
    simp [Request.KeepsPending]
  have hsame := Stores.getIntents_of_serve (serve_of_goes hgoes) hkeeps
  exact ⟨t, s₁, hgoes, hevents, hs.of_goes hgoes, fun c => (hsame c).trans (hnone c)⟩

theorem turns_separate_sample : ∃ turns s₁,
    sampleSite.Sound ⟨.inLists 9, [], []⟩ ∧
    sampleSite.Turns ⟨.inLists 9, [], []⟩ turns s₁ ∧
    turns.map Turn.asked = [("a", "m"), ("b", "m"), ("a", "n")] ∧
    (∃ s₂, sampleSite.Turns ⟨.inLists 9, [], []⟩ (turnsOf "a" turns) s₂) ∧
      ∀ alone s₂, sampleSite.Turns ⟨.inLists 9, [], []⟩ alone s₂ →
        alone.map Turn.asked = (turnsOf "a" turns).map Turn.asked →
          alone = turnsOf "a" turns ∧ s₂.stores.view "a" = s₁.stores.view "a" := by
  have hsound : sampleSite.Sound ⟨.inLists 9, [], []⟩ := ⟨trivial, Catalog.keeps_nil⟩
  obtain ⟨_, s₁, hfirst, -, hs₁, hnone⟩ := sample_goes hsound (fun _ => rfl) "a" "m"
  obtain ⟨_, s₂, hsecond, -, hs₂, hnone⟩ := sample_goes hs₁ hnone "b" "m"
  obtain ⟨_, s₃, hthird, -, -, -⟩ := sample_goes hs₂ hnone "a" "n"
  have hturns := Turns.cons hfirst (.cons hsecond (.cons hthird (.nil s₃)))
  exact ⟨_, s₃, hsound, hturns, rfl, turns_separate hsound hturns "a"⟩

end
end Site
end Switchboard
