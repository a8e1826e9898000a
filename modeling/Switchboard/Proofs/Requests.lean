import Switchboard.Proofs.Stage

/-! Which requests a run makes, and which events it can send. -/
namespace Switchboard

/-- What the stages of a run tell. A turn opens its blocks and ends in other words, and of errors a
run tells itself. -/
def Event.OfStage : Event → Prop
  | .skillStart .. | .error _ | .done => False
  | _ => True

/-- What the runs of intents tell. -/
def Event.OfRun : Event → Prop
  | .skillStart .. | .done => False
  | _ => True

def Event.isError : Event → Bool
  | .error _ => true
  | _ => false

namespace Request

def OfLoad : Request → Prop
  | prompt _ | allTools => True
  | _ => False

def OfModel : Request → Prop
  | complete _ => True
  | _ => False

def OfStep : Request → Prop
  | complete _ | invoke .. | stall => True
  | _ => False

/-- Requests to the model, to the tools and for prompts. -/
def OfWork : Request → Prop
  | complete _ | prompt _ | allTools | invoke .. | stall => True
  | _ => False

/-- The requests of a stage: its work, and talk with the listener. -/
def OfStage : Request → Prop
  | emit event => event.OfStage
  | isClosed => True
  | r => r.OfWork

def OfRun : Request → Prop
  | emit event => event.OfRun
  | isClosed => True
  | r => r.OfWork

theorem OfLoad.ofWork {r : Request} (h : r.OfLoad) : r.OfWork := by
  cases r <;> trivial

theorem OfModel.ofWork {r : Request} (h : r.OfModel) : r.OfWork := by
  cases r <;> trivial

theorem OfStep.ofWork {r : Request} (h : r.OfStep) : r.OfWork := by
  cases r <;> trivial

theorem OfWork.quiet {r : Request} (h : r.OfWork) : r.Quiet := by
  cases r <;> trivial

theorem OfWork.ofStage {r : Request} (h : r.OfWork) : r.OfStage := by
  cases r <;> trivial

theorem OfStage.ofRun {r : Request} (h : r.OfStage) : r.OfRun := by
  cases r with
  | emit event => cases event <;> trivial
  | _ => trivial

end Request

namespace Dialogue
open Program

variable {α β : Type}

/-- After an error that is told nothing is asked any more. -/
def ErrorLast : Dialogue α → Prop
  | Program.done _ => True
  | Program.ask r next => ∀ x, ErrorLast (next x) ∧ ((∃ m, r = .emit (.error m)) → (next x).IsDone)

theorem errorLast_bind {d : Dialogue α} {f : α → Dialogue β} (hd : d.Only Request.OfStage)
    (hf : ∀ a, d.Returns a → ErrorLast (f a)) : ErrorLast (d >>= f) := by
  induction d with
  | done a => exact hf a (.done a)
  | ask r next ih =>
    intro x
    refine ⟨ih x (hd.2 x) fun a h => hf a (.ask x h), ?_⟩
    rintro ⟨m, rfl⟩
    exact absurd hd.1 id

theorem events_of_work {d left : Dialogue α} {t : Trace} (hd : d.Only Request.OfWork)
    (h : d.After t left) : t.events = [] :=
  events_of_only_quiet (hd.mono fun _ => Request.OfWork.quiet) h

/-- A dialogue that is still going on has told of no error. -/
theorem not_mem_events_of_errorLast {d left : Dialogue α} {t : Trace} (hd : ErrorLast d)
    (h : d.After t left) (hl : ¬ left.IsDone) (m : String) : Event.error m ∉ t.events := by
  induction h with
  | here => simp
  | @ask r next x t left h ih =>
    intro hm
    rcases List.mem_cons.mp (Trace.mem_events.mp hm) with heq | hm
    · -- The error is the first that was asked, so the dialogue is over with it.
      have hr : r = .emit (.error m) := (congrArg Sigma.fst heq).symm
      have hdone := (hd x).2 ⟨m, hr⟩
      cases hx : next x with
      | done a =>
        obtain ⟨-, rfl⟩ := after_done.mp (hx ▸ h)
        exact hl trivial
      | ask r' next' => rw [hx] at hdone; exact hdone
    · exact ih (hd x).1 hl (Trace.mem_events.mpr hm)

end Dialogue

namespace Engine
open Plan (Progress Verdict)

theorem stepFrom_only (bound : List Handle) (maxRounds patience calls : Nat)
    (messages : List Message) :
    (stepFrom bound maxRounds patience calls messages).Only Request.OfStep := by
  induction patience generalizing calls messages with
  | zero => exact ⟨trivial, nofun⟩
  | succ patience ih =>
    refine ⟨trivial, fun reply => ?_⟩
    cases reply with
    | error err => trivial
    | ok reply =>
      dsimp only [Program.bind]
      split
      · trivial
      · split
        · trivial
        · split
          · exact ⟨trivial, fun out => ih _ _⟩
          · exact ih _ _

theorem step_only (patience : Nat) (bound : List Handle) (maxRounds : Nat) (system user : String) :
    (step patience bound maxRounds system user).Only Request.OfStep := stepFrom_only ..

theorem plan_only (task : String) (p : Progress) : (plan task p).Only Request.OfModel := by
  refine ⟨trivial, fun reply => ?_⟩
  cases reply <;> trivial

theorem observe_only (e : Engine) (task : String) (p : Progress) :
    (observe e task p).Only Request.OfModel := by
  unfold observe
  split
  · trivial
  · refine ⟨trivial, fun reply => ?_⟩
    cases reply <;> trivial

theorem preload_only (skill : Skill) (p : Progress) : (preload skill p).Only Request.OfLoad := by
  refine ⟨trivial, fun prompt => ?_⟩
  cases prompt with
  | error err => trivial
  | ok prompt =>
    dsimp only
    split
    · trivial
    · refine ⟨trivial, fun live => ?_⟩
      cases live <;> trivial

section
variable {e : Engine} {skill : Skill} {task : String} {p : Progress} {t : Trace}

theorem events_of_preload {r : Except TurnError Unit × Progress}
    (h : (preload skill p).Run t r) : t.events = [] :=
  Dialogue.events_of_work ((preload_only skill p).mono fun _ => Request.OfLoad.ofWork) h

theorem events_of_plan {r : Except ModelError (List String)} (h : (plan task p).Run t r) :
    t.events = [] :=
  Dialogue.events_of_work ((plan_only task p).mono fun _ => Request.OfModel.ofWork) h

theorem events_of_step {patience maxRounds : Nat} {bound : List Handle} {system user : String}
    {r : Except ModelError StepOutput}
    (h : (step patience bound maxRounds system user).Run t r) : t.events = [] :=
  Dialogue.events_of_work ((step_only ..).mono fun _ => Request.OfStep.ofWork) h

theorem events_of_observe {verdict : Verdict} (h : (observe e task p).Run t verdict) :
    t.events = [] :=
  Dialogue.events_of_work ((observe_only e task p).mono fun _ => Request.OfModel.ofWork) h

end

section
variable {P : Request → Prop}

theorem announce_only {event : Event} (h : P (.emit event)) (next : State) (p : Progress) :
    (announce event next p).Only P := by
  refine ⟨h, fun taken => ?_⟩
  cases taken <;> trivial

private theorem announced_only {event : Event} (h : P (.emit event)) (p : Progress) {work : Stage}
    (hw : work.Only P) : (announced event p work).Only P := by
  refine ⟨h, fun taken => ?_⟩
  cases taken
  · trivial
  · exact hw

private theorem install_only (planned : Except ModelError (List String)) (p : Progress)
    (start : List String → Progress → Progress) {event : List String → Event}
    (h : ∀ steps, P (.emit (event steps))) : (install planned p start event).Only P := by
  cases planned with
  | error err => trivial
  | ok steps => exact announce_only (h steps) _ _

/-- What a stage tells: a result only to ask the user, or as the final answer. -/
def MayTell (s : State) (p : Progress) : Event → Prop
  | .result text => s = .finalizing ∨ s = .askingUser ∧ (text = apology ∨ text = questionOf p)
  | event => event.OfStage

theorem MayTell.ofStage {s : State} {p : Progress} {event : Event} (h : MayTell s p event) :
    event.OfStage := by
  cases event <;> trivial

/-- A stage tells of itself and asks the model; only the first one loads what the run needs, and
only an executing one takes a step. -/
theorem transition_only_of {e : Engine} {skill : Skill} {task : String} {s : State} {p : Progress}
    (htell : ∀ event, MayTell s p event → P (.emit event)) (hmodel : ∀ r, r.OfModel → P r)
    (hload : s = .preload → ∀ r : Request, r.OfLoad → P r)
    (hstep : s = .executing → ∀ r : Request, r.OfStep → P r) :
    (transition e skill task s p).Only P := by
  cases s with
  | preload =>
    refine ((preload_only skill p).mono (hload rfl)).bind fun ⟨loaded, q⟩ _ => ?_
    cases loaded <;> trivial
  | planning =>
    refine announced_only (htell _ (by trivial)) p (((plan_only task p).mono hmodel).bind
      fun planned _ => ?_)
    exact install_only planned p _ fun _ => htell _ (by trivial)
  | executing =>
    change (executing e task p).Only _
    unfold executing
    split
    · trivial
    · split
      · trivial
      · refine announced_only (htell _ (by trivial)) p (((step_only ..).mono (hstep rfl)).bind
          fun out _ => ?_)
        exact announce_only (htell _ (by trivial)) _ _
  | observing =>
    refine ((observe_only e task p).mono hmodel).bind fun verdict _ => ?_
    split
    · exact announce_only (htell _ (by trivial)) _ _
    · refine ⟨htell _ (by trivial), fun taken => ?_⟩
      cases taken <;> trivial
  | replanning reason =>
    refine ((plan_only task p).mono hmodel).bind fun planned _ => ?_
    exact install_only planned p _ fun _ => htell _ (by trivial)
  | askingUser =>
    change (askingUser e p).Only _
    unfold askingUser
    split
    · exact announce_only (htell (.result apology) (Or.inr ⟨rfl, .inl rfl⟩)) _ _
    · exact announce_only (htell (.result (questionOf p)) (Or.inr ⟨rfl, .inr rfl⟩)) _ _
  | finalizing =>
    refine announced_only (htell _ (by trivial)) p ⟨hmodel _ (by trivial), fun answer => ?_⟩
    cases answer with
    | error err => trivial
    | ok text => exact announce_only (htell (.result (Text.trim text)) (Or.inl rfl)) _ _
  | done => trivial

end

theorem transition_only (e : Engine) (skill : Skill) (task : String) (s : State) (p : Progress) :
    (transition e skill task s p).Only Request.OfStage :=
  transition_only_of (fun _ h => h.ofStage) (fun _ h => h.ofWork.ofStage)
    (fun _ _ h => h.ofWork.ofStage) fun _ _ h => h.ofWork.ofStage

end Engine
end Switchboard
