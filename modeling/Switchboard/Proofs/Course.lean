import Switchboard.Proofs.Requests

/-! Whole runs as chains of stages. -/
namespace Switchboard.Engine
open Plan (Progress)

variable {e : Engine} {skill : Skill} {task : String}

/-- What a run does with the outcome of a stage. -/
def proceed (e : Engine) (skill : Skill) (task : String) :
    Except TurnError State × Progress → Dialogue (Except TurnError Outcome)
  | (.ok s, p) => runFrom e skill task s p
  | (.error err, p) => fail err p

theorem runFrom_done (p : Progress) :
    runFrom e skill task .done p = pure (.ok (.ofProgress false p)) := by
  rw [runFrom, dif_pos rfl]

theorem runFrom_of_ne {s : State} (hs : s ≠ .done) (p : Progress) :
    runFrom e skill task s p = Dialogue.isClosed >>= fun closed =>
      if closed then pure (.error .cancelled)
      else transition e skill task s p >>= proceed e skill task := by
  rw [runFrom, dif_neg hs]
  refine congrArg _ (funext fun closed => ?_)
  split
  · rfl
  · rw [← Program.bindReturned_eq]
    congr
    funext ⟨r, p'⟩ _
    cases r <;> rfl

/-- What holds of the end, and of a stage if it holds of those it leads to, holds of all stages. -/
theorem stage_induction (e : Engine) (skill : Skill) (task : String)
    {P : State → Progress → Prop} (done : ∀ p, P .done p)
    (stage : ∀ s p, s ≠ .done →
      (∀ s' p', (transition e skill task s p).Returns (.ok s', p') → P s' p') → P s p)
    (s : State) (p : Progress) : P s p := by
  by_cases hs : s = .done
  · subst hs; exact done p
  · exact stage s p hs fun s' p' h =>
      have := nearer_of_transition e skill task hs h
      stage_induction e skill task done stage s' p'
termination_by (plansLeft e s p, stagesLeft s p)
decreasing_by exact this

/-- What a run says of the error that ends it. -/
def failure (err : TurnError) : Event := .error s!"执行出错: {err.message}"

/-- The course of a run from a stage to its outcome, for a listener who stays. -/
inductive Course (e : Engine) (skill : Skill) (task : String) :
    State → Progress → Trace → Outcome → Prop where
  | done (p : Progress) : Course e skill task .done p [] (.ofProgress false p)
  | stage {s s' : State} {p p' : Progress} {t t' : Trace} {o : Outcome} : s ≠ .done →
    Step e skill task s p t (.ok s') p' → Course e skill task s' p' t' o →
    Course e skill task s p (.present :: (t ++ t')) o
  | failed {s : State} {p p' : Progress} {t : Trace} {err : TurnError} : s ≠ .done →
    Step e skill task s p t (.error err) p' → err ≠ .cancelled →
    Course e skill task s p
      (.present :: (t ++ [.taken (failure err)])) (.ofProgress true p')

theorem eq_of_course_done {p : Progress} {t : Trace} {o : Outcome}
    (h : Course e skill task .done p t o) : t = [] ∧ o = .ofProgress false p := by
  cases h with
  | done => exact ⟨rfl, rfl⟩
  | stage hs => exact absurd rfl hs
  | failed hs => exact absurd rfl hs

theorem ofStage_of_step {s : State} {p p' : Progress} {t : Trace} {r : Except TurnError State}
    (h : Step e skill task s p t r p') : ∀ event ∈ t.events, event.OfStage := fun _ hm =>
  (transition_only e skill task s p).of_mem (transition_of_step h) _ (Trace.mem_events.mp hm)

theorem countP_isError_of_step {s : State} {p p' : Progress} {t : Trace}
    {r : Except TurnError State} (h : Step e skill task s p t r p') :
    t.events.countP Event.isError = 0 := by
  rw [List.countP_eq_zero]
  intro event hm
  have hstage := ofStage_of_step h event hm
  cases event <;> first | exact absurd hstage id | exact Bool.false_ne_true

/-- A run tells of an error if it fails, and of no more than one. -/
theorem countP_isError_of_course {s : State} {p : Progress} {t : Trace} {o : Outcome}
    (h : Course e skill task s p t o) :
    t.events.countP Event.isError = if o.failed then 1 else 0 := by
  induction h with
  | done p => rfl
  | stage _ hstep _ ih =>
    rw [Trace.events_present, Trace.events_append, List.countP_append,
      countP_isError_of_step hstep, Nat.zero_add, ih]
  | failed _ hstep =>
    rw [Trace.events_present, Trace.events_append, List.countP_append,
      countP_isError_of_step hstep]
    rfl

/-- Only the prompt's catalog could cancel a stage, and it does not. -/
theorem ne_cancelled_of_step {c : Catalog} {s : State} {p p' : Progress} {t : Trace}
    {err : TurnError} (h : Step e skill task s p t (.error err) p') (hc : t.Prompted c) :
    err ≠ .cancelled := by
  cases h with
  | unloaded p err =>
    obtain ⟨readFile, kept, h⟩ := (Trace.prompted_cons.mp hc).1
    rintro rfl
    exact c.prompt_ne_cancelled readFile skill.name kept h.symm
  | unplanned | notReplanned | unanswered => nofun

/-- A run whose listener stays comes to an outcome, and this is its course. -/
theorem course_of_run {c : Catalog} {s : State} {p : Progress} {t : Trace}
    {r : Except TurnError Outcome} (h : (runFrom e skill task s p).Run t r)
    (ha : t.Attended) (hc : t.Prompted c) : ∃ o, r = .ok o ∧ Course e skill task s p t o := by
  induction s, p using stage_induction e skill task generalizing t with
  | done p =>
    rw [runFrom_done] at h
    obtain ⟨rfl, rfl⟩ := Program.run_done.mp h
    exact ⟨_, rfl, .done p⟩
  | stage s p hs ih =>
    rw [runFrom_of_ne hs] at h
    -- A listener who stays is found to be there, so the stage is carried out.
    obtain ⟨t', rfl, ht, ha⟩ := Dialogue.run_isClosed h ha
    obtain ⟨t₁, ⟨next, p'⟩, t₂, rfl, hstage, hrest⟩ := Program.run_bind.mp ht
    obtain ⟨ha₁, ha₂⟩ := Trace.attended_append.mp ha
    obtain ⟨hc₁, hc₂⟩ := Trace.prompted_append.mp (Trace.prompted_cons.mp hc).2
    have hstep := step_of_transition hstage ha₁
    cases next with
    | ok s' =>
      obtain ⟨o, rfl, ho⟩ := ih s' p' hstage.returns hrest ha₂ hc₂
      exact ⟨o, rfl, .stage hs hstep ho⟩
    | error err =>
      change (fail err p').Run t₂ r at hrest
      rw [fail, if_neg (ne_cancelled_of_step hstep hc₁)] at hrest
      obtain ⟨t', rfl, hend, -⟩ := Dialogue.run_emit hrest ha₂
      obtain ⟨rfl, rfl⟩ := Program.run_done.mp hend
      exact ⟨_, rfl, .failed hs hstep (ne_cancelled_of_step hstep hc₁)⟩

theorem run_of_stage {s : State} (hs : s ≠ .done) {p : Progress} {t t' : Trace}
    {next : Except TurnError State × Progress} {r : Except TurnError Outcome}
    (h : (transition e skill task s p).Run t next)
    (h' : (proceed e skill task next).Run t' r) :
    (runFrom e skill task s p).Run (Exchange.present :: (t ++ t')) r := by
  have hrest : (transition e skill task s p >>= proceed e skill task).Run (t ++ t') r :=
    h.bind h'
  rw [runFrom_of_ne hs]
  exact Program.run_ask.mpr ⟨false, _, rfl, hrest⟩

theorem after_of_stage {s s' : State} (hs : s ≠ .done) {p p' : Progress} {t : Trace}
    (h : (transition e skill task s p).Run t (.ok s', p')) :
    (runFrom e skill task s p).After (Exchange.present :: t) (runFrom e skill task s' p') := by
  have hrest : (transition e skill task s p >>= proceed e skill task).After t
      (runFrom e skill task s' p') := h.after_bind
  rw [runFrom_of_ne hs]
  exact Program.after_ask.mpr (.inr ⟨false, _, rfl, hrest⟩)

theorem run_of_course {s : State} {p : Progress} {t : Trace} {o : Outcome}
    (h : Course e skill task s p t o) : (runFrom e skill task s p).Run t (.ok o) := by
  induction h with
  | done p =>
    rw [runFrom_done]
    exact Program.run_done.mpr ⟨rfl, rfl⟩
  | stage hs hstep _ ih => exact run_of_stage hs (transition_of_step hstep) ih
  | @failed s p p' t err hs hstep herr =>
    refine run_of_stage hs (transition_of_step hstep) ?_
    change (fail err p').Run [Exchange.taken (failure err)] (.ok (.ofProgress true p'))
    rw [fail, if_neg herr]
    exact Program.run_ask.mpr ⟨true, [], rfl, Program.run_done.mpr ⟨rfl, rfl⟩⟩

theorem runFrom_only (s : State) (p : Progress) :
    (runFrom e skill task s p).Only Request.OfRun := by
  induction s, p using stage_induction e skill task with
  | done p => rw [runFrom_done]; trivial
  | stage s p hs ih =>
    rw [runFrom_of_ne hs]
    refine ⟨trivial, fun closed => ?_⟩
    cases closed with
    | true => trivial
    | false =>
      have hstage := (transition_only e skill task s p).mono fun _ => Request.OfStage.ofRun
      refine hstage.bind fun ⟨next, p'⟩ h => ?_
      cases next with
      | ok s' => exact ih s' p' h
      | error err =>
        change (fail err p').Only _
        unfold fail
        split
        · trivial
        · refine ⟨trivial, fun taken => ?_⟩
          cases taken <;> trivial

theorem runFrom_errorLast (s : State) (p : Progress) :
    Dialogue.ErrorLast (runFrom e skill task s p) := by
  induction s, p using stage_induction e skill task with
  | done p => rw [runFrom_done]; trivial
  | stage s p hs ih =>
    rw [runFrom_of_ne hs]
    intro closed
    refine ⟨?_, nofun⟩
    cases closed with
    | true => trivial
    | false =>
      change Dialogue.ErrorLast (transition e skill task s p >>= proceed e skill task)
      refine Dialogue.errorLast_bind (transition_only e skill task s p) fun ⟨next, p'⟩ h => ?_
      cases next with
      | ok s' => exact ih s' p' h
      | error err =>
        change Dialogue.ErrorLast (fail err p')
        unfold fail
        split
        · trivial
        · intro taken
          cases taken <;> exact ⟨trivial, fun _ => trivial⟩

/-- The answer of a direct run, before its listener hears of it. -/
def answerDirectly (e : Engine) (skill : Skill) (task : String) :
    Dialogue (Except TurnError StepOutput) := do
  let (loaded, p) ← preload skill (.start 0)
  match loaded with
  | .error err => pure (.error err)
  | .ok () => do
    let out ← step e.patience p.tools e.limits.maxToolRounds
      (Plan.Prompt.stepSystem p.skillPrompt p.tools) (Plan.Prompt.direct task)
    pure (out.mapError TurnError.model)

def concludeDirectly (answered : Except TurnError StepOutput) :
    Dialogue (Except TurnError Outcome) := do
  if ← Dialogue.isClosed then return .error .cancelled
  match answered with
  | .ok out =>
    if ← Dialogue.emit (.result out.text) then
      return .ok { reply := some out.text, toolCalls := out.toolCalls }
    else return .error .cancelled
  | .error err =>
    if ← Dialogue.emit (.error s!"处理请求时出错: {err.message}") then
      return .ok { failed := true }
    else return .error .cancelled

theorem runDirect_eq :
    runDirect e skill task = answerDirectly e skill task >>= concludeDirectly := by
  unfold runDirect answerDirectly
  rw [bind_assoc]
  refine congrArg _ (funext fun ⟨loaded, p⟩ => ?_)
  cases loaded with
  | error err => rfl
  | ok u => exact (bind_assoc _ _ _).symm

/-- A skill that binds no tools is answered in the words of the model. -/
theorem runDirect_run (htools : skill.tools = []) {text : String}
    (htext : ToolCall.parse? text = none) (limits : Plan.Limits) (patience : Nat)
    (task prompt : String) :
    (runDirect ⟨limits, patience + 1⟩ skill task).Run
      [⟨.prompt skill.name, .ok prompt⟩, ⟨.complete [⟨.system, Plan.Prompt.stepSystem prompt []⟩,
        ⟨.user, Plan.Prompt.direct task⟩], .ok text⟩, Exchange.present,
        Exchange.taken (.result (Text.trim text))]
      (.ok { reply := some (Text.trim text) }) := by
  have hstep := step_run htext patience [] limits.maxToolRounds (Plan.Prompt.stepSystem prompt [])
    (Plan.Prompt.direct task)
  have hanswer : (answerDirectly ⟨limits, patience + 1⟩ skill task).Run _
      (.ok ⟨Text.trim text, 0⟩) :=
    (preload_run htools _ prompt).bind hstep.after_bind
  have hconclude : (concludeDirectly (.ok ⟨Text.trim text, 0⟩)).Run
      [Exchange.present, Exchange.taken (.result (Text.trim text))]
      (.ok { reply := some (Text.trim text) }) :=
    Program.run_ask.mpr ⟨false, _, rfl, Program.run_ask.mpr ⟨true, _, rfl,
      Program.run_done.mpr ⟨rfl, rfl⟩⟩⟩
  rw [runDirect_eq]
  exact hanswer.bind hconclude

theorem answerDirectly_only : (answerDirectly e skill task).Only Request.OfWork := by
  have hload := (preload_only skill (.start 0)).mono fun _ => Request.OfLoad.ofWork
  refine hload.bind fun ⟨loaded, p⟩ _ => ?_
  cases loaded with
  | error err => trivial
  | ok u => exact ((step_only ..).mono fun _ => Request.OfStep.ofWork).bind fun out _ => trivial

theorem runDirect_only : (runDirect e skill task).Only Request.OfRun := by
  rw [runDirect_eq]
  refine (answerDirectly_only.mono fun _ h => h.ofStage.ofRun).bind fun answered _ => ?_
  refine ⟨trivial, fun closed => ?_⟩
  cases closed with
  | true => trivial
  | false =>
    cases answered with
    | ok out => exact ⟨trivial, fun taken => by cases taken <;> trivial⟩
    | error err => exact ⟨trivial, fun taken => by cases taken <;> trivial⟩

theorem runDirect_errorLast : Dialogue.ErrorLast (runDirect e skill task) := by
  rw [runDirect_eq]
  refine Dialogue.errorLast_bind (answerDirectly_only.mono fun _ => Request.OfWork.ofStage)
    fun answered _ closed => ⟨?_, nofun⟩
  cases closed with
  | true => trivial
  | false =>
    cases answered with
    | ok out => exact fun taken => ⟨by cases taken <;> trivial, nofun⟩
    | error err => exact fun taken => by cases taken <;> exact ⟨trivial, fun _ => trivial⟩

/-- A direct run tells its answer, or that there is none. -/
theorem events_of_runDirect {t : Trace} {r : Except TurnError Outcome}
    (h : (runDirect e skill task).Run t r) (ha : t.Attended) :
    ∃ o, r = .ok o ∧ ((∃ text, t.events = [.result text] ∧ o.reply = some text ∧ o.failed = false) ∨
      ∃ message, t.events = [.error message] ∧ o.reply = none ∧ o.failed = true) := by
  rw [runDirect_eq] at h
  obtain ⟨t₁, answered, t₂, rfl, hanswer, hend⟩ := Program.run_bind.mp h
  have hquiet := Dialogue.events_of_work answerDirectly_only hanswer
  obtain ⟨t', rfl, hend, ha⟩ := Dialogue.run_isClosed hend (Trace.attended_append.mp ha).2
  cases answered with
  | ok out =>
    obtain ⟨t'', rfl, hend, -⟩ := Dialogue.run_emit hend ha
    obtain ⟨rfl, rfl⟩ := Program.run_done.mp hend
    exact ⟨_, rfl, .inl ⟨_, by rw [Trace.events_append, hquiet]; rfl, rfl, rfl⟩⟩
  | error err =>
    obtain ⟨t'', rfl, hend, -⟩ := Dialogue.run_emit hend ha
    obtain ⟨rfl, rfl⟩ := Program.run_done.mp hend
    exact ⟨_, rfl, .inr ⟨_, by rw [Trace.events_append, hquiet]; rfl, rfl, rfl⟩⟩

theorem execute_only (asks : Nat) : (execute e skill task asks).Only Request.OfRun := by
  unfold execute
  split
  · exact runFrom_only ..
  · exact runDirect_only

theorem execute_errorLast (asks : Nat) : Dialogue.ErrorLast (execute e skill task asks) := by
  unfold execute
  split
  · exact runFrom_errorLast ..
  · exact runDirect_errorLast

/-- A run of an intent does not come to its end without asking anything. -/
theorem execute_not_isDone (asks : Nat) : ¬ (execute e skill task asks).IsDone := by
  unfold execute
  split
  · have hs : State.preload ≠ .done := nofun
    rw [run, runFrom_of_ne hs]
    exact id
  · exact id

/-- A run of an intent comes to an outcome if the listener stays, and tells of an error if it
fails. -/
theorem ok_of_execute {c : Catalog} {asks : Nat} {t : Trace} {r : Except TurnError Outcome}
    (h : (execute e skill task asks).Run t r) (ha : t.Attended) (hc : t.Prompted c) :
    ∃ o, r = .ok o ∧ t.events.countP Event.isError = if o.failed then 1 else 0 := by
  unfold execute at h
  split at h
  · obtain ⟨o, rfl, hcourse⟩ := course_of_run h ha hc
    exact ⟨o, rfl, countP_isError_of_course hcourse⟩
  · obtain ⟨o, rfl, ⟨text, htext, -, ho⟩ | ⟨message, hmessage, -, ho⟩⟩ := events_of_runDirect h ha
    · exact ⟨o, rfl, by rw [htext, ho]; rfl⟩
    · exact ⟨o, rfl, by rw [hmessage, ho]; rfl⟩

end Switchboard.Engine
