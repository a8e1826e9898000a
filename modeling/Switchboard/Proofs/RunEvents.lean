import Switchboard.Proofs.Course
import Switchboard.Proofs.Reachable

/-! The words of events that a planned run can send, and their numbers. -/
namespace Switchboard

/-- An observer's words ask for a new plan if they start with `REPLAN`, in either case. -/
def Plan.asksReplan (text : String) : Bool :=
  (text.toList.take 6).map Char.toUpper = "REPLAN".toList

theorem Plan.asksReplan_text_parse (text : String) :
    asksReplan (Verdict.parse text).text = (Verdict.parse text).wantsReplan := by
  unfold Verdict.parse asksReplan
  dsimp only
  split
  next h => simp [Verdict.text, Verdict.wantsReplan, h]
  next h => simpa [Verdict.text, Verdict.wantsReplan] using h

def Event.isReplan : Event → Bool
  | .replan .. => true
  | _ => false

namespace Engine
open Plan (Progress Verdict)

variable {e : Engine} {skill : Skill} {task : String} {asks : Nat}

/-- What a run may reply where its plan asks the user: the question, or that it asks no more. -/
def Asks (reply : String) : Prop :=
  ∃ step, Plan.asksUser step = true ∧
    (reply = apology ∨ reply = (Plan.question? step).getD Plan.defaultQuestion)

/-- The events from a step's number on: executed steps, each with its number, its total and the same
description at its start and its end, and how the run ends. `Failed` are the errors of the model. -/
inductive Rounds (Failed : ModelError → Prop) : Nat → List Event → Prop where
  | asked (n : Nat) {reply : String} : Asks reply → Rounds Failed n [.result reply]
  | answered (n : Nat) (reply : String) :
    Rounds Failed n [.planning finalizingNotice, .result reply]
  | unanswered (n : Nat) {err : ModelError} : Failed err →
    Rounds Failed n [.planning finalizingNotice, failure (.model err)]
  | notReplanned {n total : Nat} {step result text : String} {err : ModelError} : n ≤ total →
    Plan.asksReplan text = true → Failed err →
    Rounds Failed n [.actionStart n total step, .actionDone n total step result,
      .observe n text, failure (.model err)]
  | accepted {n total : Nat} {step result text : String} {rest : List Event} : n ≤ total →
    Rounds Failed (n + 1) rest →
    Rounds Failed n (.actionStart n total step :: .actionDone n total step result ::
      .observe n text :: rest)
  | replanned {n total : Nat} {step result text : String} {steps : List String}
    {rest : List Event} : n ≤ total → Plan.asksReplan text = true →
    Rounds Failed (n + 1) rest →
    Rounds Failed n (.actionStart n total step :: .actionDone n total step result ::
      .observe n text :: .replan text steps :: rest)

/-- The events of a planned run. `Unloaded` are the errors of its prompt. -/
inductive RunWord (Unloaded : TurnError → Prop) (Failed : ModelError → Prop) :
    List Event → Prop where
  | unloaded {err : TurnError} : Unloaded err → RunWord Unloaded Failed [failure err]
  | unplanned {err : ModelError} : Failed err →
    RunWord Unloaded Failed [.planning planningNotice, failure (.model err)]
  | planned (steps : List String) {rest : List Event} : Rounds Failed 1 rest →
    RunWord Unloaded Failed (.planning planningNotice :: .plan steps :: rest)

/-- The events that may still come at a stage. An executed step that is not observed yet stands
before them with its two events, and a verdict that is not followed yet with its own. -/
def Expected (Unloaded : TurnError → Prop) (Failed : ModelError → Prop) :
    State → Progress → List Event → Prop
  | .preload, _, rest | .planning, _, rest => RunWord Unloaded Failed rest
  | .executing, p, rest => Rounds Failed (p.executed.length + 1) rest
  | .observing, p, rest => ∀ total step result, p.executed.length ≤ total →
    Rounds Failed p.executed.length (.actionStart p.executed.length total step ::
      .actionDone p.executed.length total step result :: rest)
  | .replanning reason, p, rest => Plan.asksReplan reason = true →
    ∀ total step result, p.executed.length ≤ total →
    Rounds Failed p.executed.length (.actionStart p.executed.length total step ::
      .actionDone p.executed.length total step result ::
      .observe p.executed.length reason :: rest)
  | .askingUser, _, rest | .finalizing, _, rest => ∀ n, Rounds Failed n rest
  | .done, _, rest => rest = []

def FailedIn (t : Trace) (err : ModelError) : Prop :=
  ∃ messages, (messages, .error err) ∈ t.completions

def UnloadedIn (skill : Skill) (t : Trace) (err : TurnError) : Prop :=
  (⟨.prompt skill.name, .error err⟩ : Exchange) ∈ t

theorem failedIn_of_plan {p : Progress} {t : Trace} {err : ModelError}
    (h : (plan task p).Run t (.error err)) : FailedIn t err := by
  obtain ⟨reply, t', rfl, hr⟩ := Program.run_ask.mp h
  cases reply with
  | ok text => cases (Program.run_done.mp hr).2
  | error err' =>
    cases (Program.run_done.mp hr).2
    exact ⟨_, List.mem_cons_self⟩

theorem asksReplan_of_observe {p : Progress} {t : Trace} {verdict : Verdict}
    (h : (observe e task p).Run t verdict) :
    Plan.asksReplan verdict.text = verdict.wantsReplan := by
  suffices hp : ∃ text, verdict = Verdict.parse text by
    obtain ⟨text, rfl⟩ := hp
    exact Plan.asksReplan_text_parse text
  unfold observe at h
  split at h
  · exact ⟨_, (Program.run_done.mp h).2⟩
  · obtain ⟨reply, t', rfl, hr⟩ := Program.run_ask.mp h
    cases reply with
    | ok text => exact ⟨_, (Program.run_done.mp hr).2⟩
    | error err => exact ⟨_, (Program.run_done.mp hr).2⟩

/-- The number of the current step: so many steps are executed, and it is the next one. -/
theorem position_of_atStage {p : Progress} (h : p.completed.length = p.stepIndex) :
    p.position.1 = p.executed.length + 1 := by
  simp [Progress.position, Progress.executed, h]

theorem position_of_atStage_observing {p : Progress} (h : p.completed.length = p.stepIndex + 1) :
    p.position.1 = p.executed.length := by
  simp only [Progress.position, Progress.executed, List.length_append]
  omega

theorem position_le_of_currentStep? {p : Progress} {current : String}
    (h : p.currentStep? = some current) : p.position.1 ≤ p.position.2 := by
  have hlt := Progress.stepIndex_lt_of_currentStep? h
  change p.superseded.length + p.stepIndex + 1 ≤ p.superseded.length + p.currentPlan.length
  omega

section
variable {Unloaded : TurnError → Prop} {Failed : ModelError → Prop} {s s' : State}
  {p p' : Progress} {t : Trace} {heard rest : List Event}

/-- What is expected at a stage is what the stage tells and what is expected after it. -/
theorem expected_of_step (h : Step e skill task s p t (.ok s') p')
    (hi : Invariant e asks s p heard) (hrest : Expected Unloaded Failed s' p' rest) :
    Expected Unloaded Failed s p (t.events ++ rest) := by
  cases h with
  | loaded p prompt tools hp =>
    rw [events_of_preload hp]
    exact hrest
  | planned p hp =>
    rw [Trace.events_taken, Trace.events_append, events_of_plan hp]
    have hnone : p.executed = [] := hi.stage.2.1
    change Rounds Failed (p.executed.length + 1) rest at hrest
    rw [hnone] at hrest
    exact .planned _ hrest
  | finished p hc => exact hrest _
  | questioned p hc hq => exact hrest _
  | @executed p current t out hc hq hrun =>
    have hle := position_le_of_currentStep? hc
    rw [position_of_atStage hi.stage.2] at hle
    rw [Trace.events_taken, Trace.events_append, events_of_step hrun,
      position_of_atStage hi.stage.2]
    -- The step is one of those executed at the next stage, which is why its number fits there.
    have hnext := hrest p.position.2 current (resultText out)
    rw [Progress.executed_record, List.length_append] at hnext
    exact hnext hle
  | rejected p hrun hwants hlt =>
    rw [Trace.events_append, events_of_observe hrun, position_of_atStage_observing hi.stage.2]
    have hasks := asksReplan_of_observe hrun
    rw [hwants] at hasks
    exact hrest hasks
  | accepted p hrun hno =>
    rw [Trace.events_append, events_of_observe hrun, position_of_atStage_observing hi.stage.2]
    intro total step result hle
    exact .accepted hle hrest
  | replanned p reason hp =>
    rw [Trace.events_append, events_of_plan hp]
    change Rounds Failed ((p.replan _).executed.length + 1) rest at hrest
    rw [Progress.executed_replan] at hrest
    intro hasks total step result hle
    exact .replanned hle hasks hrest
  | refused p hm =>
    obtain ⟨-, q, -, hq⟩ := hi.stage
    cases (hrest : rest = [])
    intro n
    exact .asked n ⟨q, hq, .inl rfl⟩
  | asked p hm =>
    obtain ⟨-, q, hc, hq⟩ := hi.stage
    cases (hrest : rest = [])
    have hquestion : questionOf p = (Plan.question? q).getD Plan.defaultQuestion := by
      rw [questionOf, hc]
      rfl
    intro n
    exact .asked n ⟨q, hq, .inr hquestion⟩
  | answered p text =>
    cases (hrest : rest = [])
    intro n
    exact .answered n _
  | rested p => exact hrest

/-- What is expected at a stage covers the failure of the stage. -/
theorem expected_of_failed {err : TurnError} (h : Step e skill task s p t (.error err) p')
    (hu : ∀ err, UnloadedIn skill t err → Unloaded err)
    (hf : ∀ err, FailedIn t err → Failed err) :
    Expected Unloaded Failed s p (t.events ++ [failure err]) := by
  cases h with
  | unloaded p err => exact .unloaded (hu err List.mem_cons_self)
  | @unplanned p t err hp =>
    rw [Trace.events_taken, events_of_plan hp]
    have hfailed := failedIn_of_plan hp
    exact .unplanned (hf err hfailed)
  | @notReplanned p reason t err hp =>
    rw [events_of_plan hp]
    have hfailed := hf err (failedIn_of_plan hp)
    intro hasks total step result hle
    exact .notReplanned hle hasks hfailed
  | unanswered p err =>
    have hfailed := hf err ⟨_, List.mem_cons_self⟩
    intro n
    exact .unanswered n hfailed

/-- A stage tells of a new plan when it counts one. -/
theorem replans_of_step (h : Step e skill task s p t (.ok s') p') :
    p'.replans = p.replans + t.events.countP Event.isReplan := by
  cases h with
  | loaded p prompt tools hp =>
    rw [events_of_preload hp]
    rfl
  | planned p hp =>
    rw [Trace.events_taken, Trace.events_append, events_of_plan hp]
    rfl
  | executed p hc hq hrun =>
    rw [Trace.events_taken, Trace.events_append, events_of_step hrun]
    rfl
  | rejected p hrun | accepted p hrun =>
    rw [Trace.events_append, events_of_observe hrun]
    rfl
  | replanned p reason hp =>
    rw [Trace.events_append, events_of_plan hp]
    rfl
  | finished | questioned | refused | asked | answered | rested => rfl

theorem eq_of_failed {err : TurnError} (h : Step e skill task s p t (.error err) p') :
    p' = p ∧ t.events.countP Event.isReplan = 0 := by
  cases h with
  | unloaded => exact ⟨rfl, rfl⟩
  | unplanned p hp =>
    rw [Trace.events_taken, events_of_plan hp]
    exact ⟨rfl, rfl⟩
  | notReplanned p reason hp =>
    rw [events_of_plan hp]
    exact ⟨rfl, rfl⟩
  | unanswered => exact ⟨rfl, rfl⟩

variable {o : Outcome}

/-- The events of a course are those expected at the stage where it begins. -/
theorem expected_of_course (h : Course e skill task s p t o) (hi : Invariant e asks s p heard)
    (hu : ∀ err, UnloadedIn skill t err → Unloaded err)
    (hf : ∀ err, FailedIn t err → Failed err) : Expected Unloaded Failed s p t.events := by
  induction h generalizing heard with
  | done p => rfl
  | @stage s s' p p' t t' o hs hstep hrest ih =>
    rw [Trace.events_present, Trace.events_append]
    refine expected_of_step hstep hi (ih (invariant_step hstep hi) ?_ ?_)
    · intro err h
      exact hu err (List.mem_cons_of_mem _ (List.mem_append_right t h))
    · rintro err ⟨messages, hm⟩
      refine hf err ⟨messages, ?_⟩
      rw [Trace.completions_present, Trace.completions_append]
      exact List.mem_append_right _ hm
  | @failed s p p' t err hs hstep =>
    rw [Trace.events_present, Trace.events_append]
    refine expected_of_failed hstep ?_ ?_
    · intro err h
      exact hu err (List.mem_cons_of_mem _ (List.mem_append_left _ h))
    · rintro err ⟨messages, hm⟩
      refine hf err ⟨messages, ?_⟩
      rw [Trace.completions_present, Trace.completions_append]
      exact List.mem_append_left _ hm

theorem replans_of_course (h : Course e skill task s p t o) (hi : Invariant e asks s p heard) :
    o.replans = p.replans + t.events.countP Event.isReplan ∧
      o.replans ≤ e.limits.maxReplans := by
  induction h generalizing heard with
  | done p => exact ⟨rfl, hi.replans⟩
  | stage hs hstep hrest ih =>
    obtain ⟨hcount, hle⟩ := ih (invariant_step hstep hi)
    refine ⟨?_, hle⟩
    rw [hcount, replans_of_step hstep, Trace.events_present, Trace.events_append,
      List.countP_append]
    omega
  | failed hs hstep =>
    obtain ⟨rfl, hcount⟩ := eq_of_failed hstep
    refine ⟨?_, hi.replans⟩
    rw [Trace.events_present, Trace.events_append, List.countP_append, hcount]
    rfl

end

/-- The events of a planned run whose listener stays form a word of this kind. It tells of as many
new plans as its outcome counts, which are no more than the limit. -/
theorem run_events {c : Catalog} {t : Trace} {r : Except TurnError Outcome}
    (h : (run e skill task asks).Run t r) (ha : t.Attended) (hc : t.Prompted c) :
    ∃ o, r = .ok o ∧ RunWord (UnloadedIn skill t) (FailedIn t) t.events ∧
      t.events.countP Event.isReplan = o.replans ∧ o.replans ≤ e.limits.maxReplans := by
  obtain ⟨o, rfl, hcourse⟩ := course_of_run h ha hc
  have hstart := invariant_start e asks
  obtain ⟨hcount, hle⟩ := replans_of_course hcourse hstart
  have hword : Expected (UnloadedIn skill t) (FailedIn t) .preload (.start asks) t.events :=
    expected_of_course hcourse hstart (fun _ h => h) fun _ h => h
  refine ⟨o, rfl, hword, ?_, hle⟩
  rw [hcount]
  exact (Nat.zero_add _).symm

/-- Such a run with an executed step, a new plan and a question. -/
theorem run_events_replanned : ∃ (t : Trace) (r : Except TurnError Outcome),
    (run sampleEngine sampleSkill "t" 0).Run t r ∧ t.Attended ∧
      t.Prompted ⟨[sampleSkill], "weather"⟩ ∧
      ∃ o, r = .ok o ∧ RunWord (UnloadedIn sampleSkill t) (FailedIn t) t.events ∧
        t.events.countP Event.isReplan = o.replans ∧ o.replans ≤ 1 := by
  obtain ⟨t, o, hcourse, ha, hc⟩ : ∃ (t : Trace) (o : Outcome),
      Course sampleEngine sampleSkill "t" .preload (.start 0) t o ∧ t.Attended ∧
        t.Prompted ⟨[sampleSkill], "weather"⟩ := by
    refine ⟨_, _, .stage nofun (.loaded _ "p" [] (preload_run rfl _ "p"))
      (.stage nofun (.planned _ (plan_run "t" _ "查"))
      (.stage nofun
        (.executed _ rfl rfl (step_run (rfl : ToolCall.parse? "晴" = none) 0 ..))
      (.stage nofun
        (.rejected _ (observe_run sampleEngine "t" rfl
          (rfl : Text.isBlankText "REPLAN" = false)) rfl (by decide))
      (.stage nofun (.replanned _ _ (plan_run "t" _ "追问用户：哪里"))
      (.stage nofun (.questioned _ rfl rfl)
      (.stage nofun (.asked _ (by decide)) (.done _))))))), ?_, ?_⟩
    · simp [Exchange.Attended, Exchange.taken, Exchange.present]
    · have hprompt : Exchange.Prompted ⟨[sampleSkill], "weather"⟩
          ⟨.prompt sampleSkill.name, .ok "p"⟩ := ⟨fun _ => none, [], rfl⟩
      simpa [Exchange.Prompted, Exchange.taken, Exchange.present] using hprompt
  have hrun := run_of_course hcourse
  exact ⟨t, _, hrun, ha, hc, run_events hrun ha hc⟩

end Engine
end Switchboard
