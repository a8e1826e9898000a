import Switchboard.Engine.State

/-! Whole runs: stage after stage until the run is done. -/
namespace Switchboard.Engine
open Plan (Progress)

/-- What a run came to. Without a reply it failed. -/
structure Outcome where
  reply : Option String := none
  asking : Bool := false
  asks : Nat := 0
  replans : Nat := 0
  toolCalls : Nat := 0
  failed : Bool := false
deriving DecidableEq, Repr

def Outcome.ofProgress (failed : Bool) (p : Progress) : Outcome :=
  ⟨p.reply, p.asking, p.asks, p.replans, p.toolCalls, failed⟩

/-- The plans that may still be made. -/
def plansLeft (e : Engine) : State → Progress → Nat
  | .preload, p => e.limits.maxReplans - p.replans + 1
  | .planning, p => e.limits.maxReplans - p.replans + 1
  | .replanning _, p => if p.replans < e.limits.maxReplans then e.limits.maxReplans - p.replans else 1
  | _, p => e.limits.maxReplans - p.replans

/-- The stages that may still come before the next plan is made. -/
def stagesLeft : State → Progress → Nat
  | .preload, _ => 1
  | .planning, _ => 0
  | .executing, p => 4 * (p.currentPlan.length - p.stepIndex) + 2
  | .observing, p => max (4 * (p.currentPlan.length - p.stepIndex) + 1) 3
  | .replanning _, _ => 0
  | .askingUser, _ => 1
  | .finalizing, _ => 1
  | .done, _ => 0

/-- Every stage leads to one that is nearer to the end: it uses up a plan, or a stage of the plan. -/
def Nearer (e : Engine) (s : State) (p : Progress) (s' : State) (p' : Progress) : Prop :=
  Prod.Lex (· < ·) (· < ·) (plansLeft e s p, stagesLeft s p) (plansLeft e s' p', stagesLeft s' p')

private theorem nearer_of_stages {e : Engine} {s s' : State} {p p' : Progress}
    (h : plansLeft e s p = plansLeft e s' p') (h' : stagesLeft s p < stagesLeft s' p') :
    Nearer e s p s' p' := by
  rw [Nearer, h]; exact .right _ h'

private theorem nearer_of_plans {e : Engine} {s s' : State} {p p' : Progress}
    (h : plansLeft e s p < plansLeft e s' p') : Nearer e s p s' p' := .left _ _ h

theorem eq_of_announce {event : Event} {next s' : State} {p p' : Progress}
    (h : (announce event next p).Returns (.ok s', p')) : s' = next ∧ p' = p := by
  simp only [announce, Program.returns_bind] at h
  obtain ⟨taken, -, h⟩ := h
  cases taken <;> simp at h
  exact h

theorem returns_of_announced {event : Event} {s' : State} {p p' : Progress} {work : Stage}
    (h : (announced event p work).Returns (.ok s', p')) : work.Returns (.ok s', p') := by
  simp only [announced, Program.returns_bind] at h
  obtain ⟨taken, -, h⟩ := h
  cases taken <;> simp at h
  exact h

theorem of_install {planned : Except ModelError (List String)} {p p' : Progress} {s' : State}
    {start : List String → Progress → Progress} {event : List String → Event}
    (h : (install planned p start event).Returns (.ok s', p')) :
    s' = .executing ∧ ∃ steps, planned = .ok steps ∧ p' = start steps p := by
  cases planned with
  | error e => simp [install] at h
  | ok steps => exact ⟨(eq_of_announce h).1, steps, rfl, (eq_of_announce h).2⟩

private theorem nearer_of_executing {e : Engine} {task : String} {s' : State} {p p' : Progress}
    (h : (executing e task p).Returns (.ok s', p')) : Nearer e s' p' .executing p := by
  unfold executing at h
  split at h
  next => simp at h; obtain ⟨rfl, rfl⟩ := h; exact nearer_of_stages rfl (by simp [stagesLeft])
  next current hc =>
    have hlt : p.stepIndex < p.currentPlan.length := (List.getElem?_eq_some_iff.mp hc).1
    split at h
    · simp at h; obtain ⟨rfl, rfl⟩ := h; exact nearer_of_stages rfl (by simp [stagesLeft])
    · have h := returns_of_announced h
      simp only [Program.returns_bind] at h
      obtain ⟨out, -, h⟩ := h
      obtain ⟨rfl, rfl⟩ := eq_of_announce h
      refine nearer_of_stages rfl ?_
      simp only [stagesLeft, Progress.record, Progress.currentPlan] at hlt ⊢
      omega

private theorem nearer_of_observing {e : Engine} {task : String} {s' : State} {p p' : Progress}
    (h : (observing e task p).Returns (.ok s', p')) : Nearer e s' p' .observing p := by
  simp only [observing, Program.returns_bind] at h
  obtain ⟨verdict, -, h⟩ := h
  split at h
  next hr =>
    obtain ⟨rfl, rfl⟩ := eq_of_announce h
    exact nearer_of_stages (by simp [plansLeft, hr.2]) (by simp only [stagesLeft]; omega)
  next =>
    simp only [Program.returns_bind] at h
    obtain ⟨taken, -, h⟩ := h
    cases taken <;> simp at h
    obtain ⟨rfl, rfl⟩ := h
    refine nearer_of_stages rfl ?_
    simp only [stagesLeft, Progress.advance, Progress.currentPlan]
    omega

theorem nearer_of_transition (e : Engine) (skill : Skill) (task : String) {s s' : State}
    {p p' : Progress} (hs : s ≠ .done)
    (h : (transition e skill task s p).Returns (.ok s', p')) : Nearer e s' p' s p := by
  cases s with
  | preload =>
    simp only [transition, preload, Request.send, Program.returns_bind] at h
    obtain ⟨⟨r, q⟩, ⟨answer, -, hq⟩, h⟩ := h
    cases r with
    | error err => simp at h
    | ok u =>
      simp at h
      obtain ⟨rfl, rfl⟩ := h
      have : p'.replans = p.replans := by
        cases answer with
        | error err => simp at hq
        | ok prompt =>
          simp only at hq
          split at hq
          · simp at hq; simp [hq]
          · simp only [Program.returns_bind] at hq
            obtain ⟨live, -, hq⟩ := hq
            cases live <;> simp at hq <;> simp [hq]
      exact nearer_of_stages (by simp [plansLeft, this]) (by simp [stagesLeft])
  | planning =>
    have h := returns_of_announced h
    simp only [Program.returns_bind] at h
    obtain ⟨planned, -, h⟩ := h
    obtain ⟨rfl, steps, -, rfl⟩ := of_install h
    exact nearer_of_plans (by simp [plansLeft, Progress.startPlan])
  | executing => exact nearer_of_executing h
  | observing => exact nearer_of_observing h
  | replanning reason =>
    simp only [transition, Program.returns_bind] at h
    obtain ⟨planned, -, h⟩ := h
    obtain ⟨rfl, steps, -, rfl⟩ := of_install h
    refine nearer_of_plans ?_
    simp only [plansLeft, Progress.replan, Progress.startPlan]
    split <;> omega
  | askingUser =>
    simp only [transition, askingUser] at h
    split at h <;> obtain ⟨rfl, rfl⟩ := eq_of_announce h <;>
      exact nearer_of_stages rfl (by simp [stagesLeft])
  | finalizing =>
    have h := returns_of_announced h
    simp only [finalizing, Program.returns_bind] at h
    obtain ⟨answer, -, h⟩ := h
    cases answer with
    | error err => simp at h
    | ok text =>
      obtain ⟨rfl, rfl⟩ := eq_of_announce h
      exact nearer_of_stages rfl (by simp [stagesLeft])
  | done => exact absurd rfl hs

/-- The end of a run that a stage's error stops. Only a cancelled run has no outcome. -/
def fail (err : TurnError) (p : Progress) : Dialogue (Except TurnError Outcome) :=
  if err = .cancelled then pure (.error .cancelled)
  else do
    if ← Dialogue.emit (.error s!"执行出错: {err.message}") then
      return .ok (.ofProgress true p)
    else return .error .cancelled

/-- Goes on from a stage. A closed listener stops the run before each stage. -/
def runFrom (e : Engine) (skill : Skill) (task : String) (s : State) (p : Progress) :
    Dialogue (Except TurnError Outcome) :=
  if hs : s = .done then pure (.ok (.ofProgress false p))
  else do
    if ← Dialogue.isClosed then return .error .cancelled
    (transition e skill task s p).bindReturned fun
      | (.ok s', p'), h =>
        have := nearer_of_transition e skill task hs h
        runFrom e skill task s' p'
      | (.error err, p'), _ => fail err p'
termination_by (plansLeft e s p, stagesLeft s p)
decreasing_by exact this

/-- Plans, executes and observes until there is a reply. -/
def run (e : Engine) (skill : Skill) (task : String) (asks : Nat) :
    Dialogue (Except TurnError Outcome) :=
  runFrom e skill task .preload (.start asks)

/-- Answers in a single step with all tools, without a plan. -/
def runDirect (e : Engine) (skill : Skill) (task : String) :
    Dialogue (Except TurnError Outcome) := do
  let (loaded, p) ← preload skill (.start 0)
  let answered ← match loaded with
    | .error err => pure (.error err)
    | .ok () => do
      let out ← step e.patience p.tools e.limits.maxToolRounds
        (Plan.Prompt.stepSystem p.skillPrompt p.tools) (Plan.Prompt.direct task)
      pure (out.mapError TurnError.model)
  if ← Dialogue.isClosed then return .error .cancelled
  match answered with
  | .ok out =>
    if ← Dialogue.emit (.result out.text) then
      return .ok { reply := some out.text, toolCalls := out.toolCalls }
    else return .error .cancelled
  | .error err =>
    if ← Dialogue.emit (.error s!"处理请求时出错: {err.message}") then
      return .ok { failed := true }
    else return .error .cancelled

/-- Runs one intent in the mode that the limits set. -/
def execute (e : Engine) (skill : Skill) (task : String) (asks : Nat) :
    Dialogue (Except TurnError Outcome) :=
  match e.limits.mode with
  | .planExecute => run e skill task asks
  | .direct => runDirect e skill task

end Switchboard.Engine
