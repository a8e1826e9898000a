import Mathlib.Data.List.DropRight
import Switchboard.Proofs.Reachable

/-! What a progress holds, read off what was done with it in whatever order. -/
namespace Switchboard.Plan

inductive Move where
  | startPlan (steps : List String)
  | replan (steps : List String)
  | record (step result : String)
  | advance
deriving Repr

namespace Move

@[simp] def plan? : Move → Option (List String)
  | startPlan steps | replan steps => some steps
  | _ => none

@[simp] def record? : Move → Option StepRecord
  | record step result => some ⟨step, result⟩
  | _ => none

@[simp] def isReplan : Move → Bool
  | replan _ => true
  | _ => false

@[simp] def isAdvance : Move → Bool
  | advance => true
  | _ => false

end Move

def given (past : List Move) : List (List String) := past.filterMap Move.plan?

def recorded (past : List Move) : List StepRecord := past.filterMap Move.record?

/-- What was done up to the last replan: nothing if there was none. -/
def untilReplan (past : List Move) : List Move := past.rdropWhile (!·.isReplan)

/-- What was done since the last replan: everything if there was none. -/
def sinceReplan (past : List Move) : List Move := past.rtakeWhile (!·.isReplan)

def advances (past : List Move) : Nat :=
  (past.rtakeWhile (·.plan?.isNone)).countP Move.isAdvance

section
variable (past : List Move) (m : Move)

@[simp] theorem given_concat : given (past ++ [m]) = given past ++ m.plan?.toList := by
  rw [given, List.filterMap_append, List.filterMap_cons, List.filterMap_nil]
  cases m.plan? <;> rfl

@[simp] theorem recorded_nil : recorded [] = [] := rfl

@[simp] theorem recorded_concat : recorded (past ++ [m]) = recorded past ++ m.record?.toList := by
  rw [recorded, List.filterMap_append, List.filterMap_cons, List.filterMap_nil]
  cases m.record? <;> rfl

@[simp] theorem untilReplan_concat :
    untilReplan (past ++ [m]) = if m.isReplan then past ++ [m] else untilReplan past := by
  rw [untilReplan, List.rdropWhile_concat]
  cases m.isReplan <;> rfl

@[simp] theorem sinceReplan_concat :
    sinceReplan (past ++ [m]) = if m.isReplan then [] else sinceReplan past ++ [m] := by
  rw [sinceReplan, List.rtakeWhile_concat]
  cases m.isReplan <;> rfl

@[simp] theorem advances_concat :
    advances (past ++ [m]) =
      if m.plan?.isSome then 0 else advances past + if m.isAdvance then 1 else 0 := by
  rw [advances, List.rtakeWhile_concat]
  cases m.plan? with
  | none => simp [advances, List.countP_append, List.countP_singleton]
  | some steps => rfl

theorem recorded_untilReplan :
    recorded (untilReplan past) ++ recorded (sinceReplan past) = recorded past := by
  rw [recorded, recorded, ← List.filterMap_append, untilReplan, sinceReplan,
    List.rdropWhile_append_rtakeWhile, recorded]

end

namespace Progress

def perform (p : Progress) : Move → Progress
  | .startPlan steps => p.startPlan steps
  | .replan steps => p.replan steps
  | .record step result => p.record step result
  | .advance => p.advance

/-- The progress after a history that began with so many questions asked. -/
def after (asks : Nat) (past : List Move) : Progress := past.foldl perform (.start asks)

/-- What a history leaves of each part of the progress. -/
def told (asks : Nat) (past : List Move) : Progress where
  completed := recorded (sinceReplan past)
  superseded := recorded (untilReplan past)
  plans := given past
  stepIndex := min (advances past) ((given past).getLast?.getD []).length
  replans := past.countP Move.isReplan
  asks := asks

theorem told_concat (asks : Nat) (past : List Move) (m : Move) :
    told asks (past ++ [m]) = (told asks past).perform m := by
  cases m with
  | startPlan steps => simp [told, perform, startPlan]
  | replan steps => simp [told, perform, replan, startPlan, recorded_untilReplan]
  | record step result => simp [told, perform, record]
  | advance =>
    -- A cursor held at the end of the plan stays there, however often it is moved on.
    have hcursor (k n : Nat) : min (min k n + 1) n = min (k + 1) n := by omega
    simp [told, perform, advance, currentPlan, hcursor]

theorem after_eq_told (asks : Nat) (past : List Move) : after asks past = told asks past := by
  -- From the right: all that a history leaves hangs on what its last move adds.
  induction past using List.reverseRecOn with
  | nil => rfl
  | append_singleton past m ih =>
    rw [told_concat, ← ih, after, List.foldl_append]
    rfl

/-- The steps behind the cursor, the current one and the remaining ones are the plan: what remains
begins behind the current step, or at the end of the plan where there is none. -/
theorem exists_passed {p : Progress} (h : p.stepIndex ≤ p.currentPlan.length) :
    ∃ passed, passed.length = p.stepIndex ∧
      (passed ++ p.currentStep?.toList).length = min (p.stepIndex + 1) p.currentPlan.length ∧
      passed ++ p.currentStep?.toList ++ p.remaining = p.currentPlan := by
  have hpassed : (p.currentPlan.take p.stepIndex).length = p.stepIndex := List.length_take_of_le h
  refine ⟨p.currentPlan.take p.stepIndex, hpassed, ?_, ?_⟩
  · rw [List.length_append, hpassed, currentStep?]
    rcases h.lt_or_eq with hlt | heq
    · rw [List.getElem?_eq_getElem hlt, Option.toList_some, List.length_singleton]
      omega
    · rw [List.getElem?_eq_none heq.ge, Option.toList_none, List.length_nil]
      omega
  · rw [currentStep?, ← List.take_add_one, remaining, List.take_append_drop]

/-- Whatever is done with a progress in whatever order, its cursor stays in the current plan. All
steps that were put down are there, each once and in their order; those before the last replan are
set apart, and the numbers shown count on from them. The plans are those that were given, the
replans are counted and the questions asked are not touched. What remains of the plan begins within
it, behind the current step. -/
theorem after_accounted (asks : Nat) (past : List Move) :
    let p := after asks past
    p.stepIndex ≤ p.currentPlan.length ∧
      p.executed = recorded past ∧
      p.superseded = recorded (untilReplan past) ∧
      p.position = ((recorded (untilReplan past)).length + p.stepIndex + 1,
        (recorded (untilReplan past)).length + p.currentPlan.length) ∧
      p.plans = given past ∧
      p.replans = past.countP Move.isReplan ∧
      p.asks = asks ∧
      ∃ passed, passed.length = p.stepIndex ∧
        (passed ++ p.currentStep?.toList).length = min (p.stepIndex + 1) p.currentPlan.length ∧
        passed ++ p.currentStep?.toList ++ p.remaining = p.currentPlan := by
  intro p
  have hp : p = told asks past := after_eq_told asks past
  have hindex : p.stepIndex ≤ p.currentPlan.length := by
    rw [hp]
    exact Nat.min_le_right ..
  have hsuperseded : p.superseded = recorded (untilReplan past) := by rw [hp]; rfl
  have hexecuted : p.executed = recorded past := by
    rw [hp]
    exact recorded_untilReplan past
  refine ⟨hindex, hexecuted, hsuperseded, ?_, ?_, ?_, ?_, exists_passed hindex⟩
  · rw [position, hsuperseded]
  · exact congrArg plans hp
  · exact congrArg replans hp
  · exact congrArg Progress.asks hp

end Progress

end Switchboard.Plan
