import Switchboard.Tool.Handle

/-! How a run is carried out within its limits, and how far the run of one intent has come. -/
namespace Switchboard.Plan

inductive Mode where
  | planExecute
  | direct
deriving DecidableEq, Repr

structure Limits where
  mode : Mode := .planExecute
  maxReplans : Nat := 3
  maxAsks : Nat := 4
  maxToolRounds : Nat := 5
  previewChars : Nat := 500
deriving DecidableEq, Repr

/-- A step that was executed and what came of it. -/
structure StepRecord where
  step : String
  result : String
deriving DecidableEq, Repr

/-- The state that a run carries from stage to stage. `superseded` holds the steps executed for plans
that were replaced, `completed` those for the current plan, the last of `plans`. -/
structure Progress where
  completed : List StepRecord := []
  superseded : List StepRecord := []
  plans : List (List String) := []
  stepIndex : Nat := 0
  replans : Nat := 0
  asks : Nat := 0
  asking : Bool := false
  toolCalls : Nat := 0
  skillPrompt : String := ""
  tools : List Handle := []
  reply : Option String := none

namespace Progress

/-- The questions asked count on from earlier turns. -/
def start (asks : Nat) : Progress := { asks }

def currentPlan (p : Progress) : List String := p.plans.getLast?.getD []

def currentStep? (p : Progress) : Option String := p.currentPlan[p.stepIndex]?

/-- The steps after the current one. -/
def remaining (p : Progress) : List String := p.currentPlan.drop (p.stepIndex + 1)

def startPlan (steps : List String) (p : Progress) : Progress :=
  { p with plans := p.plans ++ [steps], stepIndex := 0 }

def record (step result : String) (p : Progress) : Progress :=
  { p with completed := p.completed ++ [⟨step, result⟩] }

/-- To the next step, at most to the end of the plan. -/
def advance (p : Progress) : Progress :=
  { p with stepIndex := min (p.stepIndex + 1) p.currentPlan.length }

/-- A new plan in the place of the current one, whose executed steps are kept aside. -/
def replan (steps : List String) (p : Progress) : Progress :=
  startPlan steps { p with
    superseded := p.superseded ++ p.completed, completed := [], replans := p.replans + 1 }

/-- All executed steps, in order. -/
def executed (p : Progress) : List StepRecord := p.superseded ++ p.completed

/-- The number of the current step and the last number, counted through all plans. -/
def position (p : Progress) : Nat × Nat :=
  (p.superseded.length + p.stepIndex + 1, p.superseded.length + p.currentPlan.length)

end Progress

end Switchboard.Plan
