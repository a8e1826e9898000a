import Switchboard.Proofs.Questions
import Switchboard.Proofs.Remembered

/-! What the parts of a turn may say to its user: nothing blank, but for the empty result that
stands for a blank reply of the model. -/
namespace Switchboard

/-- A request that tells no blank result and no blank error. -/
def Request.Plain : Request → Prop
  | .emit (.result text) | .emit (.error text) => Text.isBlankText text = false
  | _ => True

def Trace.LastReply (t : Trace) (reply : String) : Prop :=
  ∃ messages, t.completions.getLast? = some (messages, .ok reply)

theorem Trace.LastReply.append {t t' : Trace} {reply : String} (h : t'.LastReply reply) :
    LastReply (t ++ t') reply := by
  obtain ⟨messages, hlast⟩ := h
  refine ⟨messages, ?_⟩
  rw [completions_append, List.getLast?_append, hlast]
  rfl

def Trace.Blank (t : Trace) : Prop := ∃ reply, t.LastReply reply ∧ Text.isBlankText reply = true

/-- A result or an error is not blank, but for the empty result that stands for a blank reply. -/
def Request.MaySay (past : Trace) (r : Request) : Prop :=
  r.Plain ∨ r = .emit (.result "") ∧ past.Blank

theorem Request.OfWork.plain {r : Request} (h : r.OfWork) : r.Plain := by
  cases r <;> trivial

theorem Request.OfGathering.plain {r : Request} (h : r.OfGathering) : r.Plain := by
  cases r <;> trivial

theorem Request.MaySay.of_plain (past : Trace) (r : Request) (h : r.Plain) : r.MaySay past := .inl h

theorem plain_turnError (err : TurnError) :
    Request.Plain (.emit (.error s!"处理请求时出错: {err.message}")) := by
  have hword : Text.isBlankText "处理请求时出错: " = false := by decide
  change Text.isBlankText ("处理请求时出错: " ++ err.message) = false
  rw [Text.isBlankText_append, hword]
  rfl

/-- The last reply may be told without the blanks around it. -/
theorem may_result {past : Trace} {reply : String} (h : past.LastReply reply) :
    Request.MaySay past (.emit (.result (Text.trim reply))) := by
  cases hblank : Text.isBlankText reply with
  | true =>
    rw [Text.trim_of_isBlankText hblank]
    exact .inr ⟨rfl, reply, h, hblank⟩
  | false => exact .inl ((Text.isBlankText_trim reply).trans hblank)

namespace Engine
open Plan (Progress)

variable {e : Engine} {skill : Skill} {task : String} {s : State} {p : Progress} {past t : Trace}
  {asks : Nat} {o : Outcome}

theorem isBlankText_questionOf (p : Progress) : Text.isBlankText (questionOf p) = false := by
  unfold questionOf
  cases hquestion : p.currentStep?.bind Plan.question? with
  | none => decide +kernel
  | some question =>
    obtain ⟨step, -, hstep⟩ := Option.bind_eq_some_iff.mp hquestion
    exact (Plan.asks_of_question? hstep).isBlankText

/-- Only the stage that makes the final answer may tell a blank. -/
theorem transition_plain (hs : s ≠ .finalizing) :
    (transition e skill task s p).Only Request.Plain := by
  have hwork (r : Request) (h : r.OfWork) : r.Plain := h.plain
  refine transition_only_of (fun event htells => ?_) (fun r h => hwork r h.ofWork)
    (fun _ r h => hwork r h.ofWork) fun _ r h => hwork r h.ofWork
  cases event with
  | result text =>
    obtain hfinal | ⟨-, rfl | rfl⟩ := htells
    · exact absurd hfinal hs
    · change Text.isBlankText apology = false
      decide +kernel
    · exact isBlankText_questionOf p
  | error message => exact absurd htells id
  | _ => trivial

/-- The final answer is told right after the model gave it, and may be as blank as that. -/
theorem transition_may (past : Trace) :
    (transition e skill task s p).Guarded Request.MaySay past := by
  by_cases hs : s = .finalizing
  · subst hs
    refine ⟨.inl trivial, fun taken => ?_⟩
    cases taken with
    | false => trivial
    | true =>
      refine ⟨.inl trivial, fun answer => ?_⟩
      cases answer with
      | error err => trivial
      | ok text =>
        have hlast : Trace.LastReply [⟨.complete [⟨.user, Plan.Prompt.final p.skillPrompt task
            p.superseded p.completed⟩], .ok text⟩] text := ⟨_, rfl⟩
        exact ⟨may_result hlast.append, fun taken => by cases taken <;> trivial⟩
  · exact (transition_plain hs).guarded Request.MaySay.of_plain past

theorem plain_failure (err : TurnError) : Request.Plain (.emit (failure err)) := by
  have hword : Text.isBlankText "执行出错: " = false := by decide
  change Text.isBlankText ("执行出错: " ++ err.message) = false
  rw [Text.isBlankText_append, hword]
  rfl

theorem runFrom_may (s : State) (p : Progress) (past : Trace) :
    (runFrom e skill task s p).Guarded Request.MaySay past := by
  induction s, p using stage_induction e skill task generalizing past with
  | done p =>
    rw [runFrom_done]
    trivial
  | stage s p hs ih =>
    rw [runFrom_of_ne hs]
    refine ⟨.inl trivial, fun closed => ?_⟩
    cases closed with
    | true => trivial
    | false =>
      refine (transition_may _).bind fun t ⟨next, p'⟩ h => ?_
      cases next with
      | ok s' => exact ih s' p' h.returns _
      | error err =>
        change (fail err p').Guarded Request.MaySay _
        unfold fail
        split
        next => trivial
        next =>
          exact ⟨.inl (plain_failure err), fun taken => by cases taken <;> trivial⟩

/-- The result of a step is what the model wrote last. -/
theorem last_of_talk {bound : List Handle} {maxRounds calls : Nat} {messages : List Message}
    {out : StepOutput} (h : Talk bound maxRounds calls messages t (.ok out)) :
    ∃ reply, t.LastReply reply ∧ out.text = Text.trim reply := by
  generalize hout : (.ok out : Except ModelError StepOutput) = r at h
  induction h with
  | failed => cases hout
  | answered =>
    cases hout
    exact ⟨_, ⟨_, rfl⟩, rfl⟩
  | @called calls messages reply call tool answer _ _ _ _ _ _ ih =>
    obtain ⟨reply', hlast, htext⟩ := ih hout
    exact ⟨reply', hlast.append (t := [⟨.complete messages, .ok reply⟩,
      ⟨.invoke tool call.args, answer⟩]), htext⟩
  | @missed calls messages reply _ _ _ _ _ _ _ ih =>
    obtain ⟨reply', hlast, htext⟩ := ih hout
    exact ⟨reply', hlast.append (t := [⟨.complete messages, .ok reply⟩]), htext⟩

theorem last_of_answerDirectly {out : StepOutput}
    (h : (answerDirectly e skill task).Run t (.ok out)) :
    ∃ reply, t.LastReply reply ∧ out.text = Text.trim reply := by
  obtain ⟨t₁, ⟨loaded, p⟩, t₂, rfl, -, hstep⟩ := Program.run_bind.mp h
  cases loaded with
  | error err => cases (Program.run_done.mp hstep).2
  | ok u =>
    obtain ⟨t₂, answer, t₃, rfl, hrun, hend⟩ := Program.run_bind.mp hstep
    obtain ⟨rfl, hout⟩ := Program.run_done.mp hend
    cases answer with
    | error err => cases hout
    | ok out' =>
      cases hout
      obtain ⟨reply, hlast, htext⟩ := last_of_talk (talk_of_run hrun)
      rw [List.append_nil]
      exact ⟨reply, hlast.append, htext⟩

theorem runDirect_may (past : Trace) : (runDirect e skill task).Guarded Request.MaySay past := by
  rw [runDirect_eq]
  refine ((answerDirectly_only.mono fun _ h => h.plain).guarded Request.MaySay.of_plain past).bind
    fun t answered h => ⟨.inl trivial, fun closed => ?_⟩
  cases closed with
  | true => trivial
  | false =>
    cases answered with
    | error err => exact ⟨.inl (plain_turnError err), fun taken => by cases taken <;> trivial⟩
    | ok out =>
      obtain ⟨reply, hlast, htext⟩ := last_of_answerDirectly h
      have hopen : Trace.LastReply (t ++ [Exchange.present]) reply := by
        obtain ⟨messages, hlast⟩ := hlast
        refine ⟨messages, ?_⟩
        rw [Trace.completions_append]
        exact (congrArg List.getLast? (List.append_nil _)).trans hlast
      have hmay : Request.MaySay (past ++ t ++ [Exchange.present]) (.emit (.result out.text)) := by
        rw [htext, List.append_assoc]
        exact may_result hopen.append
      exact ⟨hmay, fun taken => by cases taken <;> trivial⟩

theorem execute_may (asks : Nat) (past : Trace) :
    (execute e skill task asks).Guarded Request.MaySay past := by
  unfold execute
  split
  · exact runFrom_may ..
  · exact runDirect_may past

theorem isBlankText_of_asking {asks : Nat} (h : (e.execute skill task asks).Run t (.ok o))
    (ho : o.asking = true) {reply : String} (hreply : o.reply = some reply) :
    Text.isBlankText reply = false := by
  obtain ⟨⟨step, question, -, hquestion, -, hasked⟩, -⟩ := asked_of_execute h ho
  cases hreply.symm.trans hasked
  exact (Plan.asks_of_question? hquestion).isBlankText

end Engine

namespace Batch

variable {e : Engine} {c : Catalog} {conversation : String} {total number : Nat} {α β : Type}
  {intents : List Intent} {i : Intent} {t past : Trace} {tally : Tally} {runs : List IntentRun}

/-- The question that ends the batch is not blank, if there is one. -/
def Tally.Worded (tally : Tally) : Prop :=
  ∀ question, tally.question = some question → Text.isBlankText question = false

theorem worded_add {o : Engine.Outcome} (h : tally.Worded)
    (ho : o.asking = true → ∀ reply, o.reply = some reply → Text.isBlankText reply = false)
    (task : String) : (tally.add task o).Worded := by
  unfold Tally.add
  dsimp only
  split
  next hasks =>
    have hasking : o.asking = true := by simp_all
    exact ho hasking
  next => split <;> exact h

theorem worded_of_loop {ended : Tally × Nat}
    (h : Loop e c conversation total number intents tally runs t (some (.ok ended)))
    (hworded : tally.Worded) : ended.1.Worded := by
  -- A question comes into the tally only from a run that asks.
  generalize hended : some (Except.ok ended) = out at h
  induction h with
  | unsaved | failed | cut => cases hended
  | finished | saved =>
    cases hended
    exact hworded
  | ran _ hpart _ ih =>
    cases hpart with
    | ran _ hvalid ho =>
      refine ih (worded_add hworded (fun hasking reply hreply => ?_) _) hended
      exact Engine.isBlankText_of_asking (hvalid.run ho) hasking hreply

/-- What the batch tells of the results of its runs is not blank, even where they all are. -/
theorem finish_plain (h : tally.Worded) : (finish tally).run.Only Request.Plain := by
  unfold finish
  split
  next => trivial
  next question hquestion _ =>
    have hm : question ∈ tally.results.map (·.2) ++ [question] :=
      List.mem_append_right _ List.mem_cons_self
    refine ⟨Text.isBlankText_joined "\n\n" hm (h question hquestion), fun taken => ?_⟩
    cases taken <;> trivial
  next => trivial
  next => trivial
  next hnone _ =>
    have hparts : Text.isBlankText (Text.joined "\n\n" (labelled tally.results)) = false := by
      obtain ⟨r, hr⟩ := List.exists_mem_of_ne_nil tally.results hnone
      refine Text.isBlankText_joined "\n\n" (List.mem_map_of_mem hr) ?_
      have hword : Text.isBlankText "【" = false := by decide
      change Text.isBlankText ("【" ++ r.1 ++ "】\n" ++ r.2) = false
      simp only [Text.isBlankText_append, hword, Bool.false_and]
    refine ⟨trivial, fun taken => ?_⟩
    cases taken with
    | false => trivial
    | true =>
      refine ⟨trivial, fun answer => ⟨?_, fun taken => by cases taken <;> trivial⟩⟩
      cases answer with
      | error err => exact hparts
      | ok text =>
        change Text.isBlankText (if Text.isBlankText text then _ else Text.trim text) = false
        split
        next => exact hparts
        next hwords =>
          rw [Text.isBlankText_trim]
          exact Bool.eq_false_iff.mpr hwords

theorem work_guarded {may : Trace → Request → Prop} {x : Work α} {f : α → Work β}
    (hx : x.run.Guarded may past)
    (hf : ∀ t a, x.run.Run t (.ok a) → (f a).run.Guarded may (past ++ t)) :
    (x >>= f).run.Guarded may past := by
  refine Program.Guarded.bind hx fun t r h => ?_
  cases r with
  | error err => trivial
  | ok a => exact hf t a h

theorem tell_may {event : Event} (h : Request.Plain (.emit event)) :
    (tell event).run.Guarded Request.MaySay past :=
  ⟨.inl h, fun taken => by cases taken <;> trivial⟩

theorem runIntent_may (past : Trace) :
    (runIntent e c conversation total number i).run.Guarded Request.MaySay past := by
  unfold runIntent
  cases hskill : c.resolve i.skill with
  | error err => trivial
  | ok skill =>
    refine work_guarded trivial fun _ skill _ => work_guarded (tell_may trivial) fun _ _ _ => ?_
    refine work_guarded ⟨.inl trivial, fun _ => trivial⟩ fun _ asks _ => ?_
    refine work_guarded (Engine.execute_may asks _) fun _ o _ => ?_
    exact ⟨.inl trivial, fun set => by cases set <;> trivial⟩

theorem runIntents_may (past : Trace) :
    (runIntents e c conversation total number intents tally).run.Guarded Request.MaySay past := by
  induction intents generalizing number tally past with
  | nil => trivial
  | cons i rest ih =>
    unfold runIntents
    split
    · exact ⟨.inl trivial, fun saved => by cases saved <;> trivial⟩
    · exact work_guarded (runIntent_may past) fun _ o _ => ih _

theorem conclude_plain {ended : Tally × Nat} (h : ended.1.Worded) :
    (conclude conversation ended).run.Only Request.Plain := by
  have hreport : (report ended).run.Only Request.Plain :=
    (finish_plain h).bind fun reply _ => by cases reply <;> trivial
  unfold conclude
  split
  · exact hreport
  · refine ⟨trivial, fun cleared => ?_⟩
    cases cleared with
    | error err => trivial
    | ok u => exact hreport

theorem execute_may (past : Trace) :
    (execute e c conversation intents).run.Guarded Request.MaySay past := by
  have hstart : Tally.Worded {} := nofun
  rw [execute_eq]
  refine work_guarded ?_ fun _ _ _ => work_guarded (runIntents_may _) fun _ ended h => ?_
  · split
    · exact tell_may trivial
    · trivial
  · obtain ⟨runs, hloop⟩ := loop_of_ok h
    exact (conclude_plain (worded_of_loop hloop hstart)).guarded Request.MaySay.of_plain _

/-- Where intents are run the listener hears how the first of them ended. -/
theorem concludes_of_loop {ended : Tally × Nat} (hne : intents ≠ [])
    (hgoing : tally.stopped = false)
    (h : Loop e c conversation total number intents tally runs t (some (.ok ended))) :
    ∃ event ∈ t.events, event.concludes = true := by
  rw [events_of_loop h]
  cases h with
  | finished => exact absurd rfl hne
  | saved number i rest hstopped =>
    rw [hgoing] at hstopped
    cases hstopped
  | @ran _ _ _ _ r _ _ _ _ _ _ hpart _ =>
    cases hpart with
    | ran _ hvalid ho =>
      have hone := Engine.concludes_of_execute (hvalid.run ho)
      obtain ⟨event, hm, hevent⟩ := List.countP_pos_iff.mp (hone ▸ Nat.one_pos)
      exact ⟨event, List.mem_append_left _ (List.mem_cons_of_mem _ hm), hevent⟩

theorem concludes_of_execute {outcome : Outcome} (hne : intents ≠ [])
    (h : (execute e c conversation intents).run.Run t (.ok outcome)) :
    ∃ event ∈ t.events, event.concludes = true := by
  obtain ⟨runs, ran, ended, finished, rfl, hloop, -⟩ := executed_of_ok h
  obtain ⟨event, hm, hevent⟩ := concludes_of_loop hne rfl hloop
  refine ⟨event, ?_, hevent⟩
  rw [Trace.events_append, Trace.events_append]
  exact List.mem_append_right _ (List.mem_append_left _ hm)

/-- Where all results are blank there is at most one. -/
theorem length_results_le {outcome : Outcome}
    (h : (execute e c conversation intents).run.Run t (.ok outcome))
    (hblank : ∀ reply ∈ t.results, Text.isBlankText reply = true) : t.results.length ≤ 1 := by
  have hstart : Tally.Worded {} := nofun
  obtain ⟨runs, ran, ended, finished, hloop, hfinish, hresults⟩ := results_of_execute h
  have hworded := worded_of_loop hloop hstart
  rw [hresults] at hblank ⊢
  obtain ⟨hreplies, hsummary⟩ := List.forall_mem_append.mp hblank
  -- A question is not blank, and neither is a summary: it stays with one run.
  cases hquestion : ended.1.question with
  | some question =>
    have hm : question ∈ ended.1.replies := by
      rw [Tally.replies, hquestion]
      exact List.mem_append_right _ List.mem_cons_self
    exact absurd (hreplies question hm) (Bool.eq_false_iff.mp (hworded question hquestion))
  | none =>
    generalize outcome.reply = reply at hfinish
    cases finished_of_ok hfinish with
    | asked hasked | askedAfter _ hasked => cases hquestion.symm.trans hasked
    | silent _ hnone =>
      rw [Tally.replies, hquestion, hnone]
      exact Nat.zero_le 1
    | single _ hone =>
      rw [Tally.replies, hquestion, hone]
      exact Nat.le_refl 1
    | summarized messages answer reply =>
      have hplain : Request.Plain (.emit (.result reply)) :=
        (finish_plain hworded).of_mem hfinish (Exchange.taken (.result reply)) (by simp)
      exact absurd (hsummary reply List.mem_cons_self) (Bool.eq_false_iff.mp hplain)

end Batch
end Switchboard
