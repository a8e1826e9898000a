import Switchboard.Proofs.Allowance
import Switchboard.Proofs.Completion
import Switchboard.Proofs.Oracles

/-! Planned runs come to their end, with no more plans than there may be and no steps but those of
their plans. -/
namespace Switchboard

namespace Engine
open Plan (Progress Verdict)

variable {e : Engine} {skill : Skill} {task : String} {s : State} {p : Progress} {a : Allowance}
  {asks plans stages : Nat} {ahead : List String} {t : Trace}

/-- The stages that may come from one on before the next plan is told. -/
def stagesAhead : State → Progress → Nat
  | .preload, _ => 2
  | .planning, _ => 1
  | .executing, p => 2 * (p.currentPlan.length - p.stepIndex) + 2
  | .observing, p => max (2 * (p.currentPlan.length - p.stepIndex) + 1) 3
  | .replanning _, _ => 1
  | .askingUser, _ => 1
  | .finalizing, _ => 1
  | .done, _ => 0

/-- The allowance is enough from a stage on. Its steps are those that the cursor has not reached, and
none is due. -/
structure Affords (e : Engine) (s : State) (p : Progress) (a : Allowance) : Prop where
  plans : plansLeft e s p ≤ a.plans
  stages : stagesAhead s p ≤ a.stages
  executing : s = .executing → a.ahead = p.currentPlan.drop p.stepIndex
  observing : s = .observing → a.ahead = p.remaining
  due : a.due = none

def State.Stepping : State → Prop
  | .executing | .observing => True
  | _ => False

/-- To other stages it does not matter which steps are ahead. -/
theorem affords_idle (hs : ¬ s.Stepping) (hplans : plansLeft e s p ≤ plans)
    (hstages : stagesAhead s p ≤ stages) : Affords e s p ⟨plans, stages, ahead, none⟩ where
  plans := hplans
  stages := hstages
  executing h := (hs (h ▸ trivial)).elim
  observing h := (hs (h ▸ trivial)).elim
  due := rfl

theorem affords_executing (hplans : e.limits.maxReplans - p.replans ≤ plans)
    (hstages : 2 * (p.currentPlan.length - p.stepIndex) + 2 ≤ stages)
    (hahead : ahead = p.currentPlan.drop p.stepIndex) :
    Affords e .executing p ⟨plans, stages, ahead, none⟩ where
  plans := hplans
  stages := hstages
  executing _ := hahead
  observing := nofun
  due := rfl

theorem affords_start (e : Engine) (asks : Nat) :
    Affords e .preload (.start asks) ⟨e.limits.maxReplans + 1, 2, [], none⟩ :=
  affords_idle id (Nat.le_refl _) (Nat.le_refl _)

/-- A stage leaves enough for the one that it leads to, and no step due. -/
def Leaves (e : Engine) (r : Except TurnError State × Progress) (a : Allowance) : Prop :=
  a.due = none ∧ ∀ s, r.1 = .ok s → Affords e s r.2 a

theorem leaves_error (e : Engine) (err : TurnError) (p : Progress) :
    Leaves e (.error err, p) ⟨plans, stages, ahead, none⟩ := ⟨rfl, nofun⟩

theorem leaves_ok (h : Affords e s p a) : Leaves e (.ok s, p) a := by
  refine ⟨h.due, fun s' hs => ?_⟩
  cases hs
  exact h

private theorem announce_within {event : Event} {next : State} {b : Allowance}
    (htaken : Allowance.Spends ⟨plans, stages, ahead, none⟩ (.taken event) b)
    (hnext : Affords e next p b) :
    (announce event next p).Within Allowance.Spends (Leaves e) ⟨plans, stages, ahead, none⟩ := by
  intro taken
  cases taken with
  | true => exact ⟨b, htaken, leaves_ok hnext⟩
  | false => exact ⟨_, Allowance.spends_untaken _, leaves_error e .cancelled p⟩

private theorem announced_within {event : Event} {work : Stage} {b : Allowance}
    (htaken : Allowance.Spends ⟨plans, stages, ahead, none⟩ (.taken event) b)
    (hwork : work.Within Allowance.Spends (Leaves e) b) :
    (announced event p work).Within Allowance.Spends (Leaves e) ⟨plans, stages, ahead, none⟩ := by
  intro taken
  cases taken with
  | true => exact ⟨b, htaken, hwork⟩
  | false => exact ⟨_, Allowance.spends_untaken _, leaves_error e .cancelled p⟩

private theorem plan_within (task : String) (p : Progress) :
    (plan task p).Within Allowance.Spends (fun _ b => b = ⟨plans, stages, ahead, none⟩)
      ⟨plans + 1, stages, ahead, none⟩ := by
  intro reply
  refine ⟨_, .plan reply ⟨_, _, _, rfl⟩, ?_⟩
  cases reply <;> rfl

private theorem install_within {planned : Except ModelError (List String)}
    {start : List String → Progress → Progress} {event : List String → Event}
    (hplan : ∀ steps, (event steps).plan? = some steps)
    (hnext : ∀ steps, Affords e .executing (start steps p)
      ⟨plans, stages + 2 * steps.length + 2, steps, none⟩) :
    (install planned p start event).Within Allowance.Spends (Leaves e)
      ⟨plans, stages, ahead, none⟩ := by
  cases planned with
  | error err => exact leaves_error e (.model err) p
  | ok steps => exact announce_within (.told (hplan steps)) (hnext steps)

/-- What follows a reply in a step tells the model more than before. -/
theorem stepFrom_ofTalk (bound : List Handle) (maxRounds patience calls : Nat)
    {messages : List Message} (hmessages : 2 < messages.length) :
    (stepFrom bound maxRounds patience calls messages).Only Request.OfTalk := by
  induction patience generalizing calls messages with
  | zero => exact ⟨trivial, nofun⟩
  | succ patience ih =>
    have hmore (more : List Message) : 2 < (messages ++ more).length := by
      rw [List.length_append]
      omega
    refine ⟨hmessages, fun reply => ?_⟩
    cases reply with
    | error err => trivial
    | ok reply =>
      dsimp only [Program.bind]
      split
      · trivial
      · split
        · trivial
        · split
          · exact ⟨trivial, fun out => ih _ (hmore _)⟩
          · exact ih _ (hmore _)

private theorem talk_within {α : Type} {d : Dialogue α} {rest : α → Allowance → Prop}
    (hd : d.Only Request.OfTalk) (hrest : ∀ a, rest a ⟨plans, stages, ahead, none⟩) :
    d.Within Allowance.Spends rest ⟨plans, stages, ahead, none⟩ := by
  refine .of_only hd (fun r answer h => ?_) fun a _ => hrest a
  have hquiet : r.Quiet := by
    cases r <;> trivial
  exact Allowance.spends_of_quiet h.free hquiet answer

/-- A step is taken when it is due. -/
private theorem step_within (patience : Nat) (bound : List Handle) (maxRounds : Nat)
    (system current task : String) (completed : List Plan.StepRecord) :
    (step patience bound maxRounds system (Plan.Prompt.step current task completed)).Within
      Allowance.Spends (fun _ b => b = ⟨plans, stages, ahead, none⟩)
      ⟨plans, stages, ahead, some current⟩ := by
  cases patience with
  | zero => exact nofun
  | succ patience =>
    intro reply
    refine ⟨_, .taken reply ⟨system, task, completed, rfl⟩, talk_within ?_ fun _ => rfl⟩
    cases reply with
    | error err => trivial
    | ok reply =>
      dsimp only [Program.bind]
      split
      · trivial
      · split
        · trivial
        · split
          · exact ⟨trivial, fun out => stepFrom_ofTalk _ _ _ _ (by decide : 2 < 4)⟩
          · exact stepFrom_ofTalk _ _ _ _ (by decide : 2 < 4)

private theorem observe_within (e : Engine) (task : String) (p : Progress) :
    (observe e task p).Within Allowance.Spends (fun _ b => b = ⟨plans, stages, ahead, none⟩)
      ⟨plans, stages, ahead, none⟩ := by
  unfold observe
  split
  next => rfl
  next last _ =>
    intro reply
    have hfree := Request.free_observer task last.step last.result p.remaining
      e.limits.previewChars
    refine ⟨_, Allowance.spends_of_quiet hfree trivial reply, ?_⟩
    cases reply <;> rfl

private theorem preload_within (h : Affords e .preload p ⟨plans, stages + 1, ahead, none⟩) :
    (transition e skill task .preload p).Within Allowance.Spends (Leaves e)
      ⟨plans, stages, ahead, none⟩ := by
  have hload : (transition e skill task .preload p).Only Request.OfLoad := by
    refine (preload_only skill p).bind fun ⟨loaded, q⟩ _ => ?_
    cases loaded <;> trivial
  refine .of_only hload ?_ ?_
  · exact fun r answer hr => Allowance.spends_of_quiet hr.free hr.ofWork.quiet answer
  · rintro ⟨r, p'⟩ hreturns
    refine ⟨rfl, ?_⟩
    rintro s' rfl
    obtain ⟨t, hrun⟩ := hreturns.run
    cases step_of_not_cancelled hrun nofun
    exact affords_idle id h.plans (Nat.le_of_succ_le_succ h.stages)

private theorem executing_within (h : Affords e .executing p ⟨plans, stages + 1, ahead, none⟩) :
    (executing e task p).Within Allowance.Spends (Leaves e) ⟨plans, stages, ahead, none⟩ := by
  have hplans : e.limits.maxReplans - p.replans ≤ plans := h.plans
  have hstages : 2 * (p.currentPlan.length - p.stepIndex) + 2 ≤ stages + 1 := h.stages
  have hahead : ahead = p.currentPlan.drop p.stepIndex := h.executing rfl
  have hlast : 1 ≤ stages := by omega
  unfold executing
  split
  next => exact leaves_ok (affords_idle id hplans hlast)
  next current hc =>
    split
    next => exact leaves_ok (affords_idle id hplans hlast)
    next =>
      have hlt : p.stepIndex < p.currentPlan.length := Progress.stepIndex_lt_of_currentStep? hc
      obtain rfl : ahead = current :: p.remaining := by
        rw [hahead, List.drop_eq_getElem_cons hlt, Progress.remaining]
        exact congrArg (· :: _) (List.getElem?_eq_some_iff.mp hc).2
      refine announced_within (.started rfl) ((step_within _ _ _ _ _ _ _).bind ?_)
      rintro out _ - rfl
      refine announce_within (Allowance.spends_emit fun _ => ⟨rfl, rfl⟩)
        ⟨hplans, ?_, nofun, fun _ => rfl, rfl⟩
      change max (2 * (p.currentPlan.length - p.stepIndex) + 1) 3 ≤ stages
      omega

private theorem observing_within (h : Affords e .observing p ⟨plans, stages + 1, ahead, none⟩) :
    (observing e task p).Within Allowance.Spends (Leaves e) ⟨plans, stages, ahead, none⟩ := by
  have hplans : e.limits.maxReplans - p.replans ≤ plans := h.plans
  have hstages : max (2 * (p.currentPlan.length - p.stepIndex) + 1) 3 ≤ stages + 1 := h.stages
  have hahead : ahead = p.remaining := h.observing rfl
  refine (observe_within e task p).bind ?_
  rintro verdict _ - rfl
  have htaken (text : String) : Allowance.Spends ⟨plans, stages, ahead, none⟩
      (.taken (.observe p.position.1 text)) ⟨plans, stages, ahead, none⟩ :=
    Allowance.spends_emit fun _ => ⟨rfl, rfl⟩
  split
  next hreplan =>
    refine announce_within (htaken _) (affords_idle id ?_ ?_)
    · rw [plansLeft, if_pos hreplan.2]
      exact hplans
    · change 1 ≤ stages
      omega
  next =>
    have hnext : Affords e .executing p.advance ⟨plans, stages, ahead, none⟩ := by
      refine affords_executing hplans ?_ ?_
      · change 2 * (p.currentPlan.length - min (p.stepIndex + 1) p.currentPlan.length) + 2 ≤ stages
        omega
      · change ahead = p.currentPlan.drop (min (p.stepIndex + 1) p.currentPlan.length)
        rw [hahead, Progress.remaining]
        rcases Nat.le_total (p.stepIndex + 1) p.currentPlan.length with hle | hle
        · rw [Nat.min_eq_left hle]
        · rw [Nat.min_eq_right hle, List.drop_eq_nil_of_le hle, List.drop_length]
    intro taken
    cases taken with
    | true => exact ⟨_, htaken _, leaves_ok hnext⟩
    | false => exact ⟨_, Allowance.spends_untaken _, leaves_error e .cancelled p⟩

/-- A plan renews the steps and the stages. -/
theorem affords_started {steps : List String} {start : List String → Progress → Progress}
    (hplan : (start steps p).currentPlan = steps) (hindex : (start steps p).stepIndex = 0)
    (hplans : e.limits.maxReplans - (start steps p).replans ≤ plans) :
    Affords e .executing (start steps p)
      ⟨plans, stages + 2 * steps.length + 2, steps, none⟩ := by
  refine affords_executing hplans ?_ ?_
  · rw [hplan, hindex]
    omega
  · rw [hplan, hindex]
    rfl

/-- What a stage spends leaves enough for the next one. -/
theorem transition_within (hs : s ≠ .done)
    (h : Affords e s p ⟨plans, stages + 1, ahead, none⟩) :
    (transition e skill task s p).Within Allowance.Spends (Leaves e)
      ⟨plans, stages, ahead, none⟩ := by
  have hplans := h.plans
  cases s with
  | preload => exact preload_within h
  | planning =>
    obtain ⟨plans, rfl⟩ : ∃ n, plans = n + 1 :=
      Nat.exists_eq_succ_of_ne_zero (Nat.ne_of_gt (Nat.lt_of_lt_of_le (Nat.succ_pos _) hplans))
    refine announced_within (Allowance.spends_emit fun _ => ⟨rfl, rfl⟩)
      ((plan_within task p).bind ?_)
    rintro planned _ - rfl
    refine install_within (fun _ => rfl) fun steps => affords_started ?_ rfl ?_
    · simp [Progress.startPlan, Progress.currentPlan]
    · exact Nat.le_of_succ_le_succ hplans
  | executing => exact executing_within h
  | observing => exact observing_within h
  | replanning reason =>
    dsimp only [plansLeft] at hplans
    obtain ⟨plans, rfl⟩ : ∃ n, plans = n + 1 := by
      refine Nat.exists_eq_succ_of_ne_zero ?_
      split at hplans <;> omega
    refine (plan_within task p).bind ?_
    rintro planned _ - rfl
    refine install_within (fun _ => rfl) fun steps => affords_started ?_ rfl ?_
    · simp [Progress.replan, Progress.startPlan, Progress.currentPlan]
    · change e.limits.maxReplans - (p.replans + 1) ≤ plans
      split at hplans <;> omega
  | askingUser =>
    change (askingUser e p).Within _ _ _
    unfold askingUser
    split
    · exact announce_within (Allowance.spends_emit fun _ => ⟨rfl, rfl⟩)
        (affords_idle id hplans (Nat.zero_le _))
    · exact announce_within (Allowance.spends_emit fun _ => ⟨rfl, rfl⟩)
        (affords_idle id hplans (Nat.zero_le _))
  | finalizing =>
    refine announced_within (Allowance.spends_emit fun _ => ⟨rfl, rfl⟩) fun reply => ?_
    have hfree := Request.free_final p.skillPrompt task p.superseded p.completed
    refine ⟨_, Allowance.spends_of_quiet hfree trivial reply, ?_⟩
    cases reply with
    | error err => exact leaves_error e (.model err) p
    | ok text =>
      exact announce_within (Allowance.spends_emit fun _ => ⟨rfl, rfl⟩)
        (affords_idle id hplans (Nat.zero_le _))
  | done => exact absurd rfl hs

theorem runFrom_within (h : Affords e s p a) :
    (runFrom e skill task s p).Within Allowance.Spends (fun _ _ => True) a := by
  induction s, p using stage_induction e skill task generalizing a with
  | done p =>
    rw [runFrom_done]
    trivial
  | stage s p hs ih =>
    rw [runFrom_of_ne hs]
    obtain ⟨plans, stages, ahead, due⟩ := a
    obtain rfl : due = none := h.due
    obtain ⟨stages, rfl⟩ : ∃ n, stages = n + 1 := by
      have hstages : stagesAhead s p ≤ stages := h.stages
      refine Nat.exists_eq_succ_of_ne_zero ?_
      cases s with
      | done => exact absurd rfl hs
      | _ => simp only [stagesAhead] at hstages; omega
    intro closed
    refine ⟨_, .stage closed, ?_⟩
    cases closed with
    | true => trivial
    | false =>
      refine (transition_within hs h).bind ?_
      rintro ⟨next, p'⟩ ⟨plans, stages, ahead, due⟩ hreturns ⟨hdue, hnext⟩
      obtain rfl : due = none := hdue
      cases next with
      | ok s' => exact ih s' p' hreturns (hnext s' rfl)
      | error err =>
        change (fail err p').Within _ _ _
        unfold fail
        split
        next => trivial
        next =>
          intro taken
          refine ⟨_, Allowance.spends_emit fun _ => ⟨rfl, rfl⟩, ?_⟩
          cases taken <;> trivial

/-- A run has an outcome unless it was cancelled. -/
theorem outcome_of_returns {r : Except TurnError Outcome}
    (h : (runFrom e skill task s p).Returns r) : r = .error .cancelled ∨ ∃ o, r = .ok o := by
  induction s, p using stage_induction e skill task with
  | done p =>
    rw [runFrom_done] at h
    exact .inr ⟨_, Program.returns_done.mp h⟩
  | stage s p hs ih =>
    rw [runFrom_of_ne hs] at h
    obtain ⟨closed, -, h⟩ := Program.returns_bind.mp h
    cases closed with
    | true => exact .inl (Program.returns_done.mp h)
    | false =>
      obtain ⟨⟨next, p'⟩, hstage, h⟩ := Program.returns_bind.mp h
      cases next with
      | ok s' => exact ih s' p' hstage h
      | error err =>
        change (fail err p').Returns r at h
        unfold fail at h
        split at h
        next => exact .inl (Program.returns_done.mp h)
        next =>
          obtain ⟨taken, -, h⟩ := Program.returns_bind.mp h
          cases taken with
          | true => exact .inr ⟨_, Program.returns_done.mp h⟩
          | false => exact .inl (Program.returns_done.mp h)

def taking (e : Engine) (task : String) (p : Progress) (current : String) :
    Dialogue (Except ModelError StepOutput) :=
  step e.patience p.tools e.limits.maxToolRounds (Plan.Prompt.stepSystem p.skillPrompt p.tools)
    (Plan.Prompt.step current task p.completed)

def recorded (p : Progress) (current : String) (out : Except ModelError StepOutput) : Stage :=
  announce (.actionDone p.position.1 p.position.2 current (resultText out)) .observing
    ({ p with toolCalls := p.toolCalls + countedCalls out }.record current (resultText out))

theorem executing_eq {current : String} (hc : p.currentStep? = some current)
    (hq : Plan.asksUser current = false) :
    transition e skill task .executing p =
      announced (.actionStart p.position.1 p.position.2 current) p
        (taking e task p current >>= recorded p current) := by
  change executing e task p = _
  rw [executing, hc]
  dsimp only
  rw [if_neg (by simp [hq])]
  rfl

theorem executing_only (h : ∀ current, p.currentStep? = some current →
    Plan.asksUser current = true) :
    (transition e skill task .executing p).Only (· ≠ .stall) := by
  change (executing e task p).Only _
  unfold executing
  split
  next => trivial
  next current hc =>
    rw [if_pos (h current hc)]
    trivial

theorem fail_only (err : TurnError) (p : Progress) : (fail err p).Only (· ≠ .stall) := by
  unfold fail
  split
  next => trivial
  next =>
    refine ⟨nofun, fun taken => ?_⟩
    cases taken <;> trivial

variable {w : Oracle} {past : Trace}

/-- Each step that a run comes to take returns. -/
def StepsReturn (e : Engine) (skill : Skill) (task : String) (asks : Nat) (w : Oracle) : Prop :=
  ∀ (past : Trace) (bound : List Handle) (system user : String)
    (rest : Except ModelError StepOutput → Dialogue (Except TurnError Outcome)),
    (run e skill task asks).After past
      (step e.patience bound e.limits.maxToolRounds system user >>= rest) →
    w.Gives [] past →
    ∃ t out, (step e.patience bound e.limits.maxToolRounds system user).Run t out ∧ w.Gives past t

/-- A dialogue that waits for nothing but answers, and for the steps that it takes. -/
inductive BySteps (e : Engine) {α : Type} : Dialogue α → Prop where
  | done (a : α) : BySteps e (.done a)
  | ask {r : Request} {next : r.Answer → Dialogue α} : r ≠ .stall → (∀ x, BySteps e (next x)) →
    BySteps e (Program.ask r next)
  | taking (bound : List Handle) (system user : String)
    {rest : Except ModelError StepOutput → Dialogue α} :
    (∀ out, (step e.patience bound e.limits.maxToolRounds system user).Returns out →
      BySteps e (rest out)) →
    BySteps e (step e.patience bound e.limits.maxToolRounds system user >>= rest)

/-- Each step that a dialogue comes to take returns. -/
def LetsReturn (e : Engine) (w : Oracle) (past : Trace) {α : Type} (d : Dialogue α) : Prop :=
  ∀ (t : Trace) (bound : List Handle) (system user : String)
    (rest : Except ModelError StepOutput → Dialogue α),
    d.After t (step e.patience bound e.limits.maxToolRounds system user >>= rest) →
    w.Gives past t →
    ∃ t' out, (step e.patience bound e.limits.maxToolRounds system user).Run t' out ∧
      w.Gives (past ++ t) t'

section
variable {α β : Type} {d left : Dialogue α}

theorem LetsReturn.of_after (h : LetsReturn e w past d) (hafter : d.After t left)
    (hg : w.Gives past t) : LetsReturn e w (past ++ t) left := by
  intro t' bound system user rest hafter' hg'
  rw [List.append_assoc]
  exact h (t ++ t') bound system user rest (hafter.append hafter')
    (Oracle.gives_append.mpr ⟨hg, hg'⟩)

theorem BySteps.send {r : Request} (hr : r ≠ .stall) : BySteps e r.send :=
  .ask hr fun x => .done x

theorem BySteps.of_only (h : d.Only (· ≠ .stall)) : BySteps e d := by
  induction d with
  | done a => exact .done a
  | ask r next ih => exact .ask h.1 fun x => ih x (h.2 x)

theorem BySteps.bind {f : α → Dialogue β} (hd : BySteps e d)
    (hf : ∀ a, d.Returns a → BySteps e (f a)) : BySteps e (d >>= f) := by
  induction hd with
  | done a => exact hf a (.done a)
  | ask hr _ ih => exact .ask hr fun x => ih x fun a ha => hf a (.ask x ha)
  | taking bound system user _ ih =>
    rw [bind_assoc]
    refine .taking bound system user fun out hout => ih out hout fun a ha => hf a ?_
    exact Program.returns_bind.mpr ⟨out, hout, ha⟩

/-- Where requests are answered and steps return a dialogue that waits for nothing else comes to its
end. -/
theorem BySteps.run (hd : BySteps e d) (hw : w.Answers) (hsteps : LetsReturn e w past d) :
    ∃ t a, d.Run t a ∧ w.Gives past t := by
  induction hd generalizing past with
  | done a => exact ⟨[], a, .here _, Oracle.gives_nil ..⟩
  | @ask r next hr _ ih =>
    obtain ⟨x, hx⟩ := Option.isSome_iff_exists.mp (hw past r hr)
    have hgiven : w.Gives past [⟨r, x⟩] := ⟨hx, Oracle.gives_nil ..⟩
    obtain ⟨t, a, hrun, hg⟩ := ih x (hsteps.of_after (.ask x (.here _)) hgiven)
    exact ⟨⟨r, x⟩ :: t, a, .ask x hrun, hx, hg⟩
  | @taking bound system user rest _ ih =>
    obtain ⟨t, out, hrun, hg⟩ := hsteps [] bound system user rest (.here _) (Oracle.gives_nil ..)
    rw [List.append_nil] at hg
    have hafter : (step e.patience bound e.limits.maxToolRounds system user >>= rest).After t
        (rest out) := hrun.after_bind
    obtain ⟨t', a, hrun', hg'⟩ := ih out hrun.returns (hsteps.of_after hafter hg)
    exact ⟨t ++ t', a, hrun.bind hrun', Oracle.gives_append.mpr ⟨hg, hg'⟩⟩

end

/-- Of the stages only one that takes a step can wait for anything but answers. -/
theorem transition_bySteps (s : State) (p : Progress) :
    BySteps e (transition e skill task s p) := by
  by_cases hstep : ∃ current, s = .executing ∧ p.currentStep? = some current ∧
      Plan.asksUser current = false
  · obtain ⟨current, rfl, hc, hq⟩ := hstep
    rw [executing_eq hc hq]
    refine .ask (by nofun) fun taken => ?_
    cases taken with
    | true => exact .taking p.tools _ _ fun out _ => .of_only (announce_only nofun _ _)
    | false => exact .done _
  · refine .of_only ?_
    by_cases hs : s = .executing
    · subst hs
      refine executing_only fun current hc => ?_
      cases hq : Plan.asksUser current with
      | true => rfl
      | false => exact absurd ⟨current, rfl, hc, hq⟩ hstep
    · refine transition_only_of (fun event _ => nofun) ?_ (fun _ => ?_) fun h => absurd h hs
      · rintro _ h rfl
        exact h
      · rintro _ h rfl
        exact h

theorem runFrom_bySteps (s : State) (p : Progress) : BySteps e (runFrom e skill task s p) := by
  induction s, p using stage_induction e skill task with
  | done p =>
    rw [runFrom_done]
    exact .done _
  | stage s p hs ih =>
    rw [runFrom_of_ne hs]
    refine .ask (by nofun) fun closed => ?_
    cases closed with
    | true => exact .done _
    | false =>
      refine (transition_bySteps s p).bind fun ⟨next, p'⟩ h => ?_
      cases next with
      | ok s' => exact ih s' p' h
      | error err => exact .of_only (fail_only err p')

/-- What a planned run does at most. It asks for a first plan and for each new one that it may make,
it starts the steps of each plan in their order, and the model is told each step directly after it
was started. It comes to no more stages than its plans are long. -/
structure Bounded (e : Engine) (t : Trace) : Prop where
  plans : t.AtMost Request.AsksPlan (e.limits.maxReplans + 1)
  unplanned : Event.startedNext t.events = []
  planned : ∀ f ∈ Event.followed t.events, f.2 <+: f.1
  told : t.TellsDue none
  steps : t.AtMost Request.Opens ((t.events.filterMap Event.plan?).map List.length).sum
  stages : t.AtMost (· = .isClosed)
    (2 + ((t.events.filterMap Event.plan?).map (2 * ·.length + 2)).sum)

/-- However far a run has come, and whatever it was answered. -/
theorem bounded_of_run {left : Dialogue (Except TurnError Outcome)}
    (h : (run e skill task asks).After t left) : Bounded e t := by
  have hkeeps : Allowance.Keeps ⟨e.limits.maxReplans + 1, 2, [], none⟩ t :=
    (runFrom_within (affords_start e asks)).of_after h Allowance.keeps_nil
      fun _ _ _ _ => Allowance.keeps_cons
  have hstarted := hkeeps.fits.started
  refine ⟨hkeeps.plans, List.prefix_nil.mp hkeeps.fits.next, hkeeps.fits.followed, hkeeps.told,
    hkeeps.steps.mono ?_, hkeeps.stages⟩
  simpa using hstarted

/-- A run comes to its end if its steps do, whatever its planner and its observer reply. -/
theorem run_ends (hw : w.Answers) (hsteps : e.StepsReturn skill task asks w) :
    ∃ (t : Trace) (r : Except TurnError Outcome), (run e skill task asks).Run t r ∧
      w.Gives [] t ∧ (r = .error .cancelled ∨ ∃ o, r = .ok o) ∧ Bounded e t := by
  have hreturn : LetsReturn e w [] (run e skill task asks) := hsteps
  obtain ⟨t, r, hrun, hg⟩ := (runFrom_bySteps .preload (.start asks)).run hw hreturn
  exact ⟨t, r, hrun, hg, outcome_of_returns hrun.returns, bounded_of_run hrun⟩

/-- So it is where the observer always wants a new plan. -/
theorem run_ends_replanning : ∃ w : Oracle, w.Answers ∧
    StepsReturn sampleEngine sampleSkill "t" 0 w ∧
    ∃ (t : Trace) (r : Except TurnError Outcome), (run sampleEngine sampleSkill "t" 0).Run t r ∧
      w.Gives [] t ∧ (r = .error .cancelled ∨ ∃ o, r = .ok o) ∧ Bounded sampleEngine t := by
  have hw : (Oracle.saying "REPLAN").Answers := by
    intro past r hr
    cases r <;> first | rfl | exact absurd rfl hr
  have hsteps : StepsReturn sampleEngine sampleSkill "t" 0 (.saying "REPLAN") := by
    intro past bound system user rest _ _
    have hrun := step_run (rfl : ToolCall.parse? "REPLAN" = none) 0 bound 5 system user
    exact ⟨_, _, hrun, rfl, Oracle.gives_nil ..⟩
  exact ⟨_, hw, hsteps, run_ends hw hsteps⟩

end Engine
end Switchboard
