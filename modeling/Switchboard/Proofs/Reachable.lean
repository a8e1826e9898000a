import Switchboard.Proofs.Requests

/-! What holds of a run at every stage it can reach. -/
namespace Switchboard

namespace Plan

/-- A plan that asks the user does nothing else. -/
def AsksAlone (steps : List String) : Prop :=
  (∀ s ∈ steps, asksUser s = false) ∨ ∃ q, steps = [q] ∧ asksUser q = true

theorem asksAlone_keepQuestion (steps : List String) : AsksAlone (keepQuestion steps) := by
  unfold keepQuestion
  split
  next q hq =>
    have hasks : asksUser q = true := List.find?_some hq
    split
    · exact .inr ⟨q, rfl, hasks⟩
    next hlen =>
      have hmem : q ∈ steps := List.mem_of_find?_eq_some hq
      obtain ⟨s, hs⟩ : ∃ s, steps = [s] := by
        have := List.length_pos_of_mem hmem
        exact List.length_eq_one_iff.mp (by omega)
      rw [hs, List.mem_singleton] at hmem
      exact .inr ⟨q, by rw [hs, hmem], hasks⟩
  next hq => exact .inl (by simpa using hq)

theorem asksAlone_parse (text : String) : AsksAlone (parse text) := asksAlone_keepQuestion _

namespace Progress

@[simp] theorem executed_replan (steps : List String) (p : Progress) :
    (replan steps p).executed = p.executed := by
  simp [replan, startPlan, executed]

@[simp] theorem executed_record (step result : String) (p : Progress) :
    (record step result p).executed = p.executed ++ [⟨step, result⟩] := by
  simp [record, executed]

theorem stepIndex_lt_of_currentStep? {p : Progress} {current : String}
    (h : p.currentStep? = some current) : p.stepIndex < p.currentPlan.length :=
  (List.getElem?_eq_some_iff.mp h).1

/-- The completed steps are the first steps of the current plan. -/
def Follows (p : Progress) : Prop :=
  ∀ (i : Nat) (r : StepRecord), p.completed[i]? = some r → p.currentPlan[i]? = some r.step

theorem Follows.record {p : Progress} {current : String} (h : p.Follows)
    (hcount : p.completed.length = p.stepIndex) (hc : p.currentStep? = some current)
    (result : String) : (p.record current result).Follows := by
  intro i r hr
  change (p.completed ++ [⟨current, result⟩])[i]? = some r at hr
  change p.currentPlan[i]? = some r.step
  rcases Nat.lt_or_ge i p.completed.length with hi | hi
  · rw [List.getElem?_append_left hi] at hr
    exact h i r hr
  · rw [List.getElem?_append_right hi, List.getElem?_singleton] at hr
    split at hr
    next h0 =>
      cases hr
      have hlast : i = p.stepIndex := by omega
      rw [hlast]
      exact hc
    · cases hr

theorem Follows.stepIndex_lt {p : Progress} (h : p.Follows)
    (hcount : p.completed.length = p.stepIndex + 1) : p.stepIndex < p.currentPlan.length := by
  have hlast : p.stepIndex < p.completed.length := by omega
  have hstep := h p.stepIndex _ (List.getElem?_eq_getElem hlast)
  exact (List.getElem?_eq_some_iff.mp hstep).1

end Progress
end Plan

def Event.record? : Event → Option Plan.StepRecord
  | .actionDone _ _ s r => some ⟨s, r⟩
  | _ => none

namespace Engine
open Plan (Progress)

variable {e : Engine} {skill : Skill} {task : String} {asks : Nat}

/-- The stages that a run can come to, each with the exchanges on the way there. -/
inductive Reach (e : Engine) (skill : Skill) (task : String) (asks : Nat) :
    State → Progress → Trace → Prop where
  | start : Reach e skill task asks .preload (.start asks) []
  | step {s s' : State} {p p' : Progress} {t t' : Trace} : Reach e skill task asks s p t →
    (transition e skill task s p).Run t' (.ok s', p') → t'.Attended →
    Reach e skill task asks s' p' (t ++ t')

/-- How many plans there are and how many steps of the last one are executed. -/
def AtStage (e : Engine) : State → Progress → Prop
  | .preload, p | .planning, p => p.plans.length = 0 ∧ p.executed = [] ∧ p.replans = 0
  | .executing, p | .finalizing, p =>
    p.plans.length = p.replans + 1 ∧ p.completed.length = p.stepIndex
  | .askingUser, p =>
    (p.plans.length = p.replans + 1 ∧ p.completed.length = p.stepIndex) ∧
      ∃ q, p.currentStep? = some q ∧ Plan.asksUser q = true
  | .observing, p => p.plans.length = p.replans + 1 ∧ p.completed.length = p.stepIndex + 1
  | .replanning _, p =>
    (p.plans.length = p.replans + 1 ∧ p.completed.length = p.stepIndex + 1) ∧
      p.replans < e.limits.maxReplans
  | .done, p => p.plans.length = p.replans + 1

/-- What holds of a run that started with so many questions asked, whatever the listener heard. -/
structure Invariant (e : Engine) (asks : Nat) (s : State) (p : Progress) (heard : List Event) :
    Prop where
  index : p.stepIndex ≤ p.currentPlan.length
  stage : AtStage e s p
  steps : p.Follows
  told : p.executed = heard.filterMap Event.record?
  asksAlone : ∀ plan ∈ p.plans, Plan.AsksAlone plan
  replans : p.replans ≤ e.limits.maxReplans
  asks : p.asks ≤ max asks e.limits.maxAsks

theorem invariant_start (e : Engine) (asks : Nat) :
    Invariant e asks .preload (.start asks) [] where
  index := Nat.le_refl 0
  stage := ⟨rfl, rfl, rfl⟩
  steps := nofun
  told := rfl
  asksAlone := nofun
  replans := Nat.zero_le _
  asks := Nat.le_max_left ..

theorem asksAlone_of_plan {p : Progress} {t : Trace} {steps : List String}
    (h : (plan task p).Run t (.ok steps)) : Plan.AsksAlone steps := by
  obtain ⟨reply, t', rfl, hr⟩ := Program.run_ask.mp h
  cases reply with
  | error err => cases (Program.run_done.mp hr).2
  | ok text =>
    cases (Program.run_done.mp hr).2
    exact Plan.asksAlone_parse text

private theorem asksAlone_append {plans : List (List String)} {steps : List String}
    (hp : ∀ plan ∈ plans, Plan.AsksAlone plan) (hs : Plan.AsksAlone steps) :
    ∀ plan ∈ plans ++ [steps], Plan.AsksAlone plan :=
  List.forall_mem_append.mpr ⟨hp, List.forall_mem_singleton.mpr hs⟩

/-- A stage tells to be done what it adds to the executed steps. -/
theorem executed_of_step {s s' : State} {p p' : Progress} {t : Trace}
    (h : Step e skill task s p t (.ok s') p') :
    p'.executed = p.executed ++ t.events.filterMap Event.record? := by
  cases h with
  | loaded p prompt tools hp =>
    rw [events_of_preload hp]
    exact (List.append_nil _).symm
  | planned p hp =>
    rw [Trace.events_taken, Trace.events_append, events_of_plan hp]
    exact (List.append_nil _).symm
  | executed p hc hq hrun =>
    rw [Trace.events_taken, Trace.events_append, events_of_step hrun, Progress.executed_record]
    rfl
  | rejected p hrun | accepted p hrun =>
    rw [Trace.events_append, events_of_observe hrun]
    exact (List.append_nil _).symm
  | replanned p reason hp =>
    rw [Trace.events_append, events_of_plan hp, Progress.executed_replan]
    exact (List.append_nil _).symm
  | finished | questioned | refused | asked | answered | rested => exact (List.append_nil _).symm

/-- A stage keeps the invariant, with what it tells added to what was heard. -/
theorem invariant_step {s s' : State} {p p' : Progress} {t : Trace} {heard : List Event}
    (h : Step e skill task s p t (.ok s') p') (hi : Invariant e asks s p heard) :
    Invariant e asks s' p' (heard ++ t.events) := by
  have htold : p'.executed = (heard ++ t.events).filterMap Event.record? := by
    rw [List.filterMap_append, ← hi.told]
    exact executed_of_step h
  obtain ⟨hindex, hstage, hsteps, -, halone, hreplans, hasks⟩ := hi
  cases h with
  | loaded | finished | rested =>
    exact ⟨hindex, hstage, hsteps, htold, halone, hreplans, hasks⟩
  | planned p hp =>
    obtain ⟨hplans, hexecuted, hzero⟩ := hstage
    have hcompleted : p.completed = [] := (List.append_eq_nil_iff.mp hexecuted).2
    refine ⟨Nat.zero_le _, ⟨?_, ?_⟩, ?_, htold, ?_, hreplans, hasks⟩
    · simp [Progress.startPlan, hplans, hzero]
    · simp [Progress.startPlan, hcompleted]
    · simp [Progress.Follows, Progress.startPlan, hcompleted]
    · exact asksAlone_append halone (asksAlone_of_plan hp)
  | questioned p hc hq =>
    exact ⟨hindex, ⟨hstage, _, hc, hq⟩, hsteps, htold, halone, hreplans, hasks⟩
  | @executed p current t out hc =>
    obtain ⟨hplans, hcount⟩ := hstage
    have hrecord := hsteps.record hcount hc (resultText out)
    refine ⟨hindex, ⟨hplans, ?_⟩, hrecord, htold, halone, hreplans, hasks⟩
    simp [Progress.record, hcount]
  | rejected p hrun hwants hlt =>
    exact ⟨hindex, ⟨hstage, hlt⟩, hsteps, htold, halone, hreplans, hasks⟩
  | accepted p =>
    obtain ⟨hplans, hcount⟩ := hstage
    have hlt := hsteps.stepIndex_lt hcount
    refine ⟨Nat.min_le_right _ _, ⟨hplans, ?_⟩, hsteps, htold, halone, hreplans, hasks⟩
    change p.completed.length = min (p.stepIndex + 1) p.currentPlan.length
    omega
  | replanned p reason hp =>
    obtain ⟨⟨hplans, -⟩, hlt⟩ := hstage
    refine ⟨Nat.zero_le _, ⟨?_, rfl⟩, ?_, htold, ?_, hlt, hasks⟩
    · simp [Progress.replan, Progress.startPlan, hplans]
    · simp [Progress.Follows, Progress.replan, Progress.startPlan]
    · exact asksAlone_append halone (asksAlone_of_plan hp)
  | refused =>
    exact ⟨hindex, hstage.1.1, hsteps, htold, halone, hreplans, hasks⟩
  | asked p hm =>
    refine ⟨hindex, hstage.1.1, hsteps, htold, halone, hreplans, ?_⟩
    exact Nat.le_trans hm (Nat.le_max_right ..)
  | answered => exact ⟨hindex, hstage.1, hsteps, htold, halone, hreplans, hasks⟩

theorem reach_invariant {s : State} {p : Progress} {t : Trace}
    (h : Reach e skill task asks s p t) : Invariant e asks s p t.events := by
  induction h with
  | start => exact invariant_start e asks
  | step _ hrun ha ih =>
    rw [Trace.events_append]
    exact invariant_step (step_of_transition hrun ha) ih

/-- A stage after a new plan that asks the user. -/
theorem reach_invariant_replanned : ∃ p t,
    Reach sampleEngine sampleSkill "t" 0 .executing p t ∧
      Invariant sampleEngine 0 .executing p t.events ∧ p.replans = 1 := by
  have hstart : Reach sampleEngine sampleSkill "t" 0 .preload _ _ := .start
  have hloaded := hstart.step
    (transition_of_step (.loaded _ "p" [] (preload_run rfl _ "p")))
    (by simp [Exchange.Attended])
  have hplanned := hloaded.step (transition_of_step (.planned _ (plan_run "t" _ "查")))
    (by simp [Exchange.Attended, Exchange.taken])
  have hexecuted := hplanned.step
    (transition_of_step (.executed _ rfl rfl (step_run (rfl : ToolCall.parse? "晴" = none) 0 ..)))
    (by simp [Exchange.Attended, Exchange.taken])
  have hrejected := hexecuted.step
    (transition_of_step (.rejected _ (observe_run sampleEngine "t" rfl
      (rfl : Text.isBlankText "REPLAN" = false)) rfl (by decide)))
    (by simp [Exchange.Attended, Exchange.taken])
  have hreplanned := hrejected.step
    (transition_of_step (.replanned _ _ (plan_run "t" _ "追问用户：哪里")))
    (by simp [Exchange.Attended, Exchange.taken])
  exact ⟨_, _, hreplanned, reach_invariant hreplanned, rfl⟩

end Engine
end Switchboard
