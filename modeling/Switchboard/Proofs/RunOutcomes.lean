import Switchboard.Proofs.AskStreaks
import Switchboard.Proofs.Replies
import Switchboard.Proofs.RunEvents
import Switchboard.Proofs.ToolCalls

/-! The outcome of a run, and what its listener heard of it. -/
namespace Switchboard

namespace Event

def concludes : Event → Bool
  | .result _ | .error _ => true
  | _ => false

def plan? : Event → Option (List String)
  | .plan steps | .replan _ steps => some steps
  | _ => none

theorem countP_concludes (events : List Event) :
    events.countP concludes = events.countP isError + (events.filterMap result?).length := by
  induction events with
  | nil => rfl
  | cons event events ih =>
    rw [List.countP_cons, List.countP_cons, List.filterMap_cons, ih]
    cases event with
    | result content => exact Nat.add_assoc ..
    | error message => exact Nat.add_right_comm ..
    | _ => rfl

end Event

namespace Plan

/-- A step that asks the user has a question, if only the standing one. -/
theorem question?_of_asksUser {step : String} (h : asksUser step = true) :
    ∃ question, question? step = some question ∧ question ≠ "" := by
  obtain ⟨rest, hrest⟩ := Option.isSome_iff_exists.mp h
  have hne (q : List Char) : (if q.isEmpty then defaultQuestion else .ofList q) ≠ "" := by
    split
    next => decide
    next hempty =>
      intro hq
      have hnil := String.ofList_eq_empty_iff.mp hq
      exact hempty (List.isEmpty_iff.mpr hnil)
  unfold question?
  rw [hrest]
  exact ⟨_, rfl, hne _⟩

/-- A plan with a step that asks the user is that step. -/
theorem AsksAlone.eq_singleton {steps : List String} {step : String} (h : AsksAlone steps)
    (hm : step ∈ steps) (hq : asksUser step = true) : steps = [step] := by
  rcases h with hnone | ⟨q, rfl, -⟩
  · have hno := hnone step hm
    rw [hq] at hno
    cases hno
  · rw [List.mem_singleton.mp hm]

end Plan

namespace Engine
open Plan (Progress)

variable {e : Engine} {skill : Skill} {task : String} {asks : Nat} {s s' : State}
  {p p' : Progress} {t : Trace} {events heard : List Event} {o : Outcome}

/-- The last thing that is told is the reply of the run, or that it failed and has none. -/
def EndsAs (events : List Event) (o : Outcome) : Prop :=
  (∃ reply, events.getLast? = some (.result reply) ∧ o.reply = some reply ∧ o.failed = false) ∨
    ∃ message, events.getLast? = some (.error message) ∧ o.reply = none ∧ o.failed = true

theorem EndsAs.append (h : EndsAs events o) (before : List Event) :
    EndsAs (before ++ events) o := by
  rcases h with ⟨reply, hlast, ho⟩ | ⟨message, hlast, ho⟩
  · exact .inl ⟨reply, by rw [List.getLast?_append, hlast]; rfl, ho⟩
  · exact .inr ⟨message, by rw [List.getLast?_append, hlast]; rfl, ho⟩

/-- A stage that ends the run tells its reply last. -/
theorem endsAs_of_last (h : Step e skill task s p t (.ok .done) p') (hs : s ≠ .done) :
    EndsAs t.events (.ofProgress false p') := by
  cases h with
  | refused | asked | answered => exact .inl ⟨_, rfl, rfl, rfl⟩
  | rested => exact absurd rfl hs

theorem endsAs_of_course (h : Course e skill task s p t o) (hp : p.reply = none)
    (hs : s ≠ .done) : EndsAs t.events o := by
  induction h with
  | done => exact absurd rfl hs
  | @stage s s' p p' t t' o _ hstep hrest ih =>
    rw [Trace.events_present, Trace.events_append]
    by_cases hdone : s' = .done
    · subst hdone
      obtain ⟨rfl, rfl⟩ := eq_of_course_done hrest
      rw [Trace.events_nil, List.append_nil]
      exact endsAs_of_last hstep hs
    · have hreply := (results_of_step hstep hp).2 fun hok => hdone (Except.ok.inj hok)
      exact (ih hreply hdone).append _
  | @failed s p p' t err _ hstep =>
    obtain ⟨rfl, -⟩ := eq_of_failed hstep
    rw [Trace.events_present, Trace.events_append]
    have hend : EndsAs [failure err] (.ofProgress true p') := .inr ⟨_, rfl, hp, rfl⟩
    exact hend.append _

theorem endsAs_of_execute (h : (e.execute skill task asks).Run t (.ok o)) :
    EndsAs t.events o := by
  unfold execute at h
  split at h
  · exact endsAs_of_course (course_of_ok h) rfl nofun
  · obtain ⟨t, answered, event, -, rfl, hend⟩ := answered_of_runDirect h
    rw [Trace.events_append]
    apply EndsAs.append
    obtain ⟨out, -, rfl, rfl⟩ | ⟨err, message, -, rfl, rfl⟩ := hend
    · exact .inl ⟨_, rfl, rfl, rfl⟩
    · exact .inr ⟨_, rfl, rfl, rfl⟩

/-- A run tells of one error or of one result, and not of both. -/
theorem concludes_of_execute (h : (e.execute skill task asks).Run t (.ok o)) :
    t.events.countP Event.concludes = 1 := by
  have herrors : t.events.countP Event.isError = if o.failed then 1 else 0 := by
    unfold execute at h
    split at h
    · exact countP_isError_of_course (course_of_ok h)
    · obtain ⟨t, answered, event, hanswer, rfl, hend⟩ := answered_of_runDirect h
      have hquiet := Dialogue.events_of_work answerDirectly_only hanswer
      rw [Trace.events_append, hquiet]
      obtain ⟨out, -, rfl, rfl⟩ | ⟨err, message, -, rfl, rfl⟩ := hend <;> rfl
  have hresults : t.events.filterMap Event.result? = o.reply.toList := (results_of_execute h).1
  rw [Event.countP_concludes, herrors, hresults]
  rcases endsAs_of_execute h with ⟨reply, -, hreply, hfailed⟩ | ⟨message, -, hreply, hfailed⟩
  · rw [hreply, hfailed]
    rfl
  · rw [hreply, hfailed]
    rfl

/-- A stage tells of each plan that it adds. -/
theorem plans_of_step (h : Step e skill task s p t (.ok s') p') :
    p'.plans = p.plans ++ t.events.filterMap Event.plan? := by
  cases h with
  | loaded p prompt tools hp =>
    rw [events_of_preload hp]
    exact (List.append_nil _).symm
  | planned p hp =>
    rw [Trace.events_taken, Trace.events_append, events_of_plan hp]
    rfl
  | executed p hc hq hrun =>
    rw [Trace.events_taken, Trace.events_append, events_of_step hrun]
    exact (List.append_nil _).symm
  | rejected p hrun | accepted p hrun =>
    rw [Trace.events_append, events_of_observe hrun]
    exact (List.append_nil _).symm
  | replanned p reason hp =>
    rw [Trace.events_append, events_of_plan hp]
    rfl
  | finished | questioned | refused | asked | answered | rested => exact (List.append_nil _).symm

/-- The reply is the question of a step, which is all that the last plan told holds. -/
def AsksLast (events : List Event) (o : Outcome) : Prop :=
  ∃ step question, (events.filterMap Event.plan?).getLast? = some [step] ∧
    Plan.question? step = some question ∧ question ≠ "" ∧ o.reply = some question

/-- Where a run asks, the last plan is the question alone. -/
theorem plans_of_asking (hi : Invariant e asks .askingUser p heard) :
    ∃ step question, p.plans.getLast? = some [step] ∧ Plan.question? step = some question ∧
      question ≠ "" ∧ questionOf p = question := by
  obtain ⟨-, step, hc, hq⟩ := hi.stage
  have hmem : step ∈ p.currentPlan := List.mem_of_getElem? hc
  obtain ⟨question, hquestion, hne⟩ := Plan.question?_of_asksUser hq
  refine ⟨step, question, ?_, hquestion, hne, ?_⟩
  · cases hlast : p.plans.getLast? with
    | none =>
      rw [Progress.currentPlan, hlast] at hmem
      exact absurd hmem List.not_mem_nil
    | some steps =>
      have hcurrent : p.currentPlan = steps := by
        rw [Progress.currentPlan, hlast, Option.getD_some]
      rw [hcurrent] at hmem
      have halone := hi.asksAlone steps (List.mem_of_getLast? hlast)
      rw [halone.eq_singleton hmem hq]
  · rw [questionOf, hc, Option.bind_some, hquestion, Option.getD_some]

theorem asksLast_of_last (h : Step e skill task s p t (.ok .done) p')
    (hi : Invariant e asks s p heard) (hplans : p.plans = heard.filterMap Event.plan?)
    (hp : p.asking = false) (ho : p'.asking = true) :
    AsksLast (heard ++ t.events) (.ofProgress false p') := by
  cases h with
  | asked p hlt =>
    obtain ⟨step, question, hlast, hquestion, hne, hasked⟩ := plans_of_asking hi
    refine ⟨step, question, ?_, hquestion, hne, congrArg some hasked⟩
    have htold : [Event.result (questionOf p)].filterMap Event.plan? = [] := rfl
    change ((heard ++ [Event.result (questionOf p)]).filterMap Event.plan?).getLast? = _
    rw [List.filterMap_append, htold, List.append_nil, ← hplans, hlast]
  | refused => cases ho
  | answered | rested =>
    have hno : p.asking = true := ho
    rw [hp] at hno
    cases hno

theorem asksLast_of_course (h : Course e skill task s p t o) (hi : Invariant e asks s p heard)
    (hplans : p.plans = heard.filterMap Event.plan?) (hp : p.asking = false)
    (ho : o.asking = true) : AsksLast (heard ++ t.events) o := by
  induction h generalizing heard with
  | done p =>
    have hno : p.asking = true := ho
    rw [hp] at hno
    cases hno
  | @stage s s' p p' t t' o _ hstep hrest ih =>
    rw [Trace.events_present, Trace.events_append, ← List.append_assoc]
    have hplans' : p'.plans = (heard ++ t.events).filterMap Event.plan? := by
      rw [List.filterMap_append, ← hplans]
      exact plans_of_step hstep
    rcases asks_of_step hstep hp with ⟨hasking, -⟩ | ⟨hdone, -⟩
    · exact ih (invariant_step hstep hi) hplans' hasking ho
    · cases hdone
      obtain ⟨rfl, rfl⟩ := eq_of_course_done hrest
      rw [Trace.events_nil, List.append_nil]
      exact asksLast_of_last hstep hi hplans hp ho
  | @failed s p p' t err _ hstep =>
    obtain ⟨rfl, -⟩ := eq_of_failed hstep
    have hno : p'.asking = true := ho
    rw [hp] at hno
    cases hno

theorem asks_of_course_unasked (h : Course e skill task s p t o) (ho : o.asking = false) :
    o.asks = p.asks := by
  induction h with
  | done => rfl
  | stage _ hstep hrest ih =>
    rw [ih ho]
    cases hstep with
    | asked =>
      obtain ⟨-, rfl⟩ := eq_of_course_done hrest
      cases ho
    | _ => rfl
  | failed _ hstep =>
    obtain ⟨rfl, -⟩ := eq_of_failed hstep
    rfl

theorem asking_of_runDirect (h : (runDirect e skill task).Run t (.ok o)) : o.asking = false := by
  obtain ⟨t, answered, event, -, -, ⟨out, -, -, rfl⟩ | ⟨err, message, -, -, rfl⟩⟩ :=
    answered_of_runDirect h
  · rfl
  · rfl

/-- A run that ends in a question may still ask, and counts the question. -/
theorem asked_of_execute (h : (e.execute skill task asks).Run t (.ok o)) (ho : o.asking = true) :
    AsksLast t.events o ∧ o.asks = asks + 1 ∧ asks < e.limits.maxAsks := by
  unfold execute at h
  split at h
  · have hcourse := course_of_ok h
    have hasked := asksLast_of_course hcourse (invariant_start e asks) rfl rfl ho
    exact ⟨hasked, asks_of_course hcourse rfl ho⟩
  · rw [asking_of_runDirect h] at ho
    cases ho

/-- What an outcome says is what the listener heard: one event concludes the run, the last one, and
it is the reply or an error. If the reply asks the user, that question is counted, it was still
allowed, and the last plan told is to ask it. -/
structure Tells (e : Engine) (asks : Nat) (events : List Event) (o : Outcome) : Prop where
  once : events.countP Event.concludes = 1
  last : EndsAs events o
  asked : o.asking = true → o.failed = false ∧ o.asks = asks + 1 ∧ o.asks ≤ e.limits.maxAsks ∧
    AsksLast events o
  unasked : o.asking = false → e.limits.mode = .planExecute → o.asks = asks

/-- The outcome of a run agrees with its events. -/
theorem outcome_of_execute (h : (e.execute skill task asks).Run t (.ok o)) :
    Tells e asks t.events o where
  once := concludes_of_execute h
  last := endsAs_of_execute h
  asked := by
    intro ho
    obtain ⟨hasked, hasks, hlt⟩ := asked_of_execute h ho
    refine ⟨?_, hasks, by omega, hasked⟩
    rcases endsAs_of_execute h with ⟨-, -, -, hfailed⟩ | ⟨-, -, hnone, -⟩
    · exact hfailed
    · obtain ⟨-, question, -, -, -, hreply⟩ := hasked
      rw [hnone] at hreply
      cases hreply
  unasked := by
    intro ho hmode
    rw [execute, hmode] at h
    exact asks_of_course_unasked (course_of_ok h) ho

/-- Such a run that ends in a question. -/
theorem outcome_of_execute_refund : ∃ (t : Trace) (o : Outcome),
    (execute ⟨{ maxReplans := 1 }, 2⟩ refundSkill "t" 0).Run t (.ok o) ∧ o.asking = true ∧
      Tells ⟨{ maxReplans := 1 }, 2⟩ 0 t.events o := by
  obtain ⟨t, o, hrun, ho, -⟩ := wasted_run
  exact ⟨t, o, hrun, ho, outcome_of_execute hrun⟩

end Engine
end Switchboard
