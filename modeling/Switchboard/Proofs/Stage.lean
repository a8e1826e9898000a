import Switchboard.Engine.Run
import Switchboard.Proofs.Listener

/-! What one stage of a run does for a listener who stays, said once for all stages. -/
namespace Switchboard.Engine
open Plan (Progress Verdict)

/-- The question a run puts to the user in place of a plan's step. -/
def questionOf (p : Progress) : String :=
  (p.currentStep?.bind Plan.question?).getD Plan.defaultQuestion

/-- A stage with its exchanges, what it leads to and the progress it leaves. -/
inductive Step (e : Engine) (skill : Skill) (task : String) :
    State → Progress → Trace → Except TurnError State → Progress → Prop where
  | unloaded (p : Progress) (err : TurnError) :
    Step e skill task .preload p [⟨.prompt skill.name, .error err⟩] (.error err) p
  | loaded (p : Progress) {t : Trace} (prompt : String) (tools : List Handle) :
    (preload skill p).Run t (.ok (), { p with skillPrompt := prompt, tools }) →
    Step e skill task .preload p t (.ok .planning) { p with skillPrompt := prompt, tools }
  | planned (p : Progress) {t : Trace} {steps : List String} :
    (plan task p).Run t (.ok steps) →
    Step e skill task .planning p
      (.taken (.planning planningNotice) :: (t ++ [.taken (.plan steps)]))
      (.ok .executing) (p.startPlan steps)
  | unplanned (p : Progress) {t : Trace} {err : ModelError} :
    (plan task p).Run t (.error err) →
    Step e skill task .planning p (.taken (.planning planningNotice) :: t) (.error (.model err)) p
  | finished (p : Progress) : p.currentStep? = none →
    Step e skill task .executing p [] (.ok .finalizing) p
  | questioned (p : Progress) {current : String} : p.currentStep? = some current →
    Plan.asksUser current = true → Step e skill task .executing p [] (.ok .askingUser) p
  | executed (p : Progress) {current : String} {t : Trace} {out : Except ModelError StepOutput} :
    p.currentStep? = some current → Plan.asksUser current = false →
    (step e.patience p.tools e.limits.maxToolRounds (Plan.Prompt.stepSystem p.skillPrompt p.tools)
      (Plan.Prompt.step current task p.completed)).Run t out →
    Step e skill task .executing p
      (.taken (.actionStart p.position.1 p.position.2 current) ::
        (t ++ [.taken (.actionDone p.position.1 p.position.2 current (resultText out))]))
      (.ok .observing)
      ({ p with toolCalls := p.toolCalls + countedCalls out }.record current (resultText out))
  | rejected (p : Progress) {t : Trace} {verdict : Verdict} :
    (observe e task p).Run t verdict → verdict.wantsReplan = true →
    p.replans < e.limits.maxReplans →
    Step e skill task .observing p (t ++ [.taken (.observe p.position.1 verdict.text)])
      (.ok (.replanning verdict.text)) p
  | accepted (p : Progress) {t : Trace} {verdict : Verdict} :
    (observe e task p).Run t verdict →
    ¬ (verdict.wantsReplan = true ∧ p.replans < e.limits.maxReplans) →
    Step e skill task .observing p (t ++ [.taken (.observe p.position.1 verdict.text)])
      (.ok .executing) p.advance
  | replanned (p : Progress) (reason : String) {t : Trace} {steps : List String} :
    (plan task p).Run t (.ok steps) →
    Step e skill task (.replanning reason) p (t ++ [.taken (.replan reason steps)])
      (.ok .executing) (p.replan steps)
  | notReplanned (p : Progress) (reason : String) {t : Trace} {err : ModelError} :
    (plan task p).Run t (.error err) →
    Step e skill task (.replanning reason) p t (.error (.model err)) p
  | refused (p : Progress) : e.limits.maxAsks ≤ p.asks →
    Step e skill task .askingUser p [.taken (.result apology)] (.ok .done)
      { p with asking := false, reply := some apology }
  | asked (p : Progress) : p.asks < e.limits.maxAsks →
    Step e skill task .askingUser p [.taken (.result (questionOf p))] (.ok .done)
      { p with asks := p.asks + 1, asking := true, reply := some (questionOf p) }
  | answered (p : Progress) (text : String) :
    Step e skill task .finalizing p
      [.taken (.planning finalizingNotice),
        ⟨.complete [⟨.user, Plan.Prompt.final p.skillPrompt task p.superseded p.completed⟩],
          .ok text⟩,
        .taken (.result (Text.trim text))]
      (.ok .done) { p with reply := some (Text.trim text) }
  | unanswered (p : Progress) (err : ModelError) :
    Step e skill task .finalizing p
      [.taken (.planning finalizingNotice),
        ⟨.complete [⟨.user, Plan.Prompt.final p.skillPrompt task p.superseded p.completed⟩],
          .error err⟩]
      (.error (.model err)) p
  | rested (p : Progress) : Step e skill task .done p [] (.ok .done) p

theorem run_announce {event : Event} {next : State} {p p' : Progress} {t : Trace}
    {r : Except TurnError State} (h : (announce event next p).Run t (r, p')) (ha : t.Attended) :
    t = [.taken event] ∧ r = .ok next ∧ p' = p := by
  obtain ⟨t', rfl, h, -⟩ := Dialogue.run_emit h ha
  simpa using h

theorem run_announced {event : Event} {p p' : Progress} {work : Stage} {t : Trace}
    {r : Except TurnError State} (h : (announced event p work).Run t (r, p'))
    (ha : t.Attended) :
    ∃ t' : Trace, t = .taken event :: t' ∧ work.Run t' (r, p') ∧ t'.Attended :=
  Dialogue.run_emit h ha

theorem run_preload {skill : Skill} {p p' : Progress} {t : Trace} {r : Except TurnError Unit}
    (h : (preload skill p).Run t (r, p')) :
    (∃ err, t = [⟨.prompt skill.name, .error err⟩] ∧ r = .error err ∧ p' = p) ∨
      r = .ok () ∧ ∃ prompt tools, p' = { p with skillPrompt := prompt, tools } := by
  obtain ⟨answer, t', rfl, hp⟩ := Program.run_ask.mp h
  cases answer with
  | error err =>
    obtain ⟨rfl, hr⟩ := Program.run_done.mp hp
    cases hr
    exact .inl ⟨err, rfl, rfl, rfl⟩
  | ok prompt =>
    refine .inr ?_
    dsimp only at hp
    split at hp
    · obtain ⟨rfl, hr⟩ := Program.run_done.mp hp
      cases hr
      exact ⟨rfl, prompt, p.tools, rfl⟩
    · obtain ⟨live, t'', rfl, ht⟩ := Program.run_ask.mp hp
      cases live with
      | error err =>
        obtain ⟨rfl, hr⟩ := Program.run_done.mp ht
        cases hr
        exact ⟨rfl, prompt, [], rfl⟩
      | ok live =>
        obtain ⟨rfl, hr⟩ := Program.run_done.mp ht
        cases hr
        exact ⟨rfl, prompt, _, rfl⟩

private theorem step_of_preload {e : Engine} {skill : Skill} {task : String} {p p' : Progress}
    {t : Trace} {r : Except TurnError State}
    (h : (transition e skill task .preload p).Run t (r, p')) :
    Step e skill task .preload p t r p' := by
  obtain ⟨t₁, ⟨loaded, q⟩, t₂, rfl, hl, hr⟩ := Program.run_bind.mp h
  rcases run_preload hl with ⟨err, rfl, rfl, rfl⟩ | ⟨rfl, prompt, tools, rfl⟩
  · obtain ⟨rfl, hr⟩ := Program.run_done.mp hr
    cases hr
    exact .unloaded _ err
  · obtain ⟨rfl, hr⟩ := Program.run_done.mp hr
    cases hr
    rw [List.append_nil]
    exact .loaded p prompt tools hl

private theorem step_of_planning {e : Engine} {skill : Skill} {task : String} {p p' : Progress}
    {t : Trace} {r : Except TurnError State}
    (h : (transition e skill task .planning p).Run t (r, p')) (ha : t.Attended) :
    Step e skill task .planning p t r p' := by
  obtain ⟨t', rfl, hw, ha⟩ := run_announced h ha
  obtain ⟨t₁, planned, t₂, rfl, hp, hi⟩ := Program.run_bind.mp hw
  cases planned with
  | error err =>
    obtain ⟨rfl, hi⟩ := Program.run_done.mp hi
    cases hi
    rw [List.append_nil]
    exact .unplanned p hp
  | ok steps =>
    obtain ⟨rfl, rfl, rfl⟩ := run_announce hi (Trace.attended_append.mp ha).2
    exact .planned p hp

private theorem step_of_executing {e : Engine} {skill : Skill} {task : String} {p p' : Progress}
    {t : Trace} {r : Except TurnError State}
    (h : (transition e skill task .executing p).Run t (r, p')) (ha : t.Attended) :
    Step e skill task .executing p t r p' := by
  change (executing e task p).Run t (r, p') at h
  unfold executing at h
  split at h
  next hc =>
    obtain ⟨rfl, h⟩ := Program.run_done.mp h
    cases h
    exact .finished _ hc
  next current hc =>
    split at h
    next hq =>
      obtain ⟨rfl, h⟩ := Program.run_done.mp h
      cases h
      exact .questioned _ hc hq
    next hq =>
      obtain ⟨t', rfl, hw, ha⟩ := run_announced h ha
      obtain ⟨t₁, out, t₂, rfl, hs, hd⟩ := Program.run_bind.mp hw
      obtain ⟨rfl, rfl, rfl⟩ := run_announce hd (Trace.attended_append.mp ha).2
      exact .executed p hc (by simpa using hq) hs

private theorem step_of_observing {e : Engine} {skill : Skill} {task : String} {p p' : Progress}
    {t : Trace} {r : Except TurnError State}
    (h : (transition e skill task .observing p).Run t (r, p')) (ha : t.Attended) :
    Step e skill task .observing p t r p' := by
  obtain ⟨t₁, verdict, t₂, rfl, ho, h⟩ := Program.run_bind.mp h
  have ha := (Trace.attended_append.mp ha).2
  split at h
  next hr =>
    obtain ⟨rfl, rfl, rfl⟩ := run_announce h ha
    exact .rejected _ ho hr.1 hr.2
  next hr =>
    obtain ⟨t', rfl, hd, -⟩ := Dialogue.run_emit h ha
    obtain ⟨rfl, hd⟩ := Program.run_done.mp hd
    cases hd
    exact .accepted _ ho hr

private theorem step_of_replanning {e : Engine} {skill : Skill} {task reason : String}
    {p p' : Progress} {t : Trace} {r : Except TurnError State}
    (h : (transition e skill task (.replanning reason) p).Run t (r, p')) (ha : t.Attended) :
    Step e skill task (.replanning reason) p t r p' := by
  obtain ⟨t₁, planned, t₂, rfl, hp, hi⟩ := Program.run_bind.mp h
  cases planned with
  | error err =>
    obtain ⟨rfl, hi⟩ := Program.run_done.mp hi
    cases hi
    rw [List.append_nil]
    exact .notReplanned _ reason hp
  | ok steps =>
    obtain ⟨rfl, rfl, rfl⟩ := run_announce hi (Trace.attended_append.mp ha).2
    exact .replanned p reason hp

private theorem step_of_finalizing {e : Engine} {skill : Skill} {task : String} {p p' : Progress}
    {t : Trace} {r : Except TurnError State}
    (h : (transition e skill task .finalizing p).Run t (r, p')) (ha : t.Attended) :
    Step e skill task .finalizing p t r p' := by
  obtain ⟨t', rfl, hw, ha⟩ := run_announced h ha
  obtain ⟨answer, t'', rfl, hf⟩ := Program.run_ask.mp hw
  cases answer with
  | error err =>
    obtain ⟨rfl, hf⟩ := Program.run_done.mp hf
    cases hf
    exact .unanswered _ err
  | ok text =>
    obtain ⟨rfl, rfl, rfl⟩ := run_announce hf (Trace.attended_cons.mp ha).2
    exact .answered p text

/-- Every stage that comes to its end while the listener is there is one of these. -/
theorem step_of_transition {e : Engine} {skill : Skill} {task : String} {s : State}
    {p p' : Progress} {t : Trace} {r : Except TurnError State}
    (h : (transition e skill task s p).Run t (r, p')) (ha : t.Attended) :
    Step e skill task s p t r p' := by
  cases s with
  | preload => exact step_of_preload h
  | planning => exact step_of_planning h ha
  | executing => exact step_of_executing h ha
  | observing => exact step_of_observing h ha
  | replanning reason => exact step_of_replanning h ha
  | askingUser =>
    change (askingUser e p).Run t (r, p') at h
    unfold askingUser at h
    split at h
    next hm =>
      obtain ⟨rfl, rfl, rfl⟩ := run_announce h ha
      exact .refused p hm
    next hm =>
      obtain ⟨rfl, rfl, rfl⟩ := run_announce h ha
      exact .asked p (Nat.lt_of_not_le hm)
  | finalizing => exact step_of_finalizing h ha
  | done =>
    obtain ⟨rfl, h⟩ := Program.run_done.mp h
    cases h
    exact .rested _

theorem announce_run (event : Event) (next : State) (p : Progress) :
    (announce event next p).Run [Exchange.taken event] (.ok next, p) :=
  Program.run_ask.mpr ⟨true, [], rfl, Program.run_done.mpr ⟨rfl, rfl⟩⟩

theorem announced_run {event : Event} {p p' : Progress} {work : Stage} {t : Trace}
    {r : Except TurnError State} (h : work.Run t (r, p')) :
    (announced event p work).Run (Exchange.taken event :: t) (r, p') :=
  Program.run_ask.mpr ⟨true, t, rfl, h⟩

theorem transition_of_step {e : Engine} {skill : Skill} {task : String} {s : State}
    {p p' : Progress} {t : Trace} {r : Except TurnError State}
    (h : Step e skill task s p t r p') : (transition e skill task s p).Run t (r, p') := by
  cases h with
  | unloaded p err =>
    exact Program.run_ask.mpr ⟨_, [], rfl, Program.run_done.mpr ⟨rfl, rfl⟩⟩
  | loaded p prompt tools hp =>
    exact hp.after_bind
  | planned p hp =>
    exact announced_run (hp.bind (announce_run ..))
  | unplanned p hp =>
    exact announced_run hp.after_bind
  | finished p hc =>
    change (executing e task _).Run _ _
    rw [executing, hc]
    exact Program.run_done.mpr ⟨rfl, rfl⟩
  | questioned p hc hq =>
    change (executing e task _).Run _ _
    rw [executing, hc]
    dsimp only
    rw [if_pos hq]
    exact Program.run_done.mpr ⟨rfl, rfl⟩
  | executed p hc hq hrun =>
    change (executing e task _).Run _ _
    rw [executing, hc]
    dsimp only
    rw [if_neg (by simp [hq])]
    exact announced_run (hrun.bind (announce_run ..))
  | rejected p hrun hwants hlt =>
    refine hrun.bind ?_
    rw [if_pos ⟨hwants, hlt⟩]
    exact announce_run ..
  | accepted p hrun hno =>
    refine hrun.bind ?_
    rw [if_neg hno]
    exact Program.run_ask.mpr ⟨true, [], rfl, Program.run_done.mpr ⟨rfl, rfl⟩⟩
  | replanned p reason hp =>
    exact hp.bind (announce_run ..)
  | notReplanned p reason hp =>
    exact hp.after_bind
  | refused p hm =>
    change (askingUser e p).Run _ _
    rw [askingUser, if_pos hm]
    exact announce_run ..
  | asked p hm =>
    change (askingUser e p).Run _ _
    rw [askingUser, if_neg (Nat.not_le_of_lt hm)]
    exact announce_run ..
  | answered p text => exact announced_run (Program.run_ask.mpr ⟨_, _, rfl, announce_run ..⟩)
  | unanswered p err =>
    exact announced_run
      (Program.run_ask.mpr ⟨_, [], rfl, Program.run_done.mpr ⟨rfl, rfl⟩⟩)
  | rested p => exact Program.run_done.mpr ⟨rfl, rfl⟩

/-- A skill that binds no tools needs its prompt and nothing else. -/
theorem preload_run {skill : Skill} (htools : skill.tools = []) (p : Progress) (prompt : String) :
    (preload skill p).Run [⟨.prompt skill.name, .ok prompt⟩]
      (.ok (), { p with skillPrompt := prompt }) := by
  refine Program.run_ask.mpr ⟨.ok prompt, [], rfl, ?_⟩
  dsimp only
  rw [htools]
  exact Program.run_done.mpr ⟨rfl, rfl⟩

/-- A skill whose tools are listed has those that it declares. -/
theorem preload_run_listed {skill : Skill} (htools : skill.tools ≠ []) (p : Progress)
    (prompt : String) (live : List Handle) :
    (preload skill p).Run [⟨.prompt skill.name, .ok prompt⟩, ⟨.allTools, .ok live⟩]
      (.ok (), { p with skillPrompt := prompt, tools := Handle.resolve skill.tools live }) := by
  refine Program.run_send.mpr ⟨.ok prompt, _, rfl, ?_⟩
  dsimp only
  rw [if_neg (by simpa using htools)]
  exact Program.run_send.mpr ⟨.ok live, [], rfl, Program.run_done.mpr ⟨rfl, rfl⟩⟩

theorem plan_run (task : String) (p : Progress) (text : String) :
    (plan task p).Run
      [⟨.complete [⟨.user, Plan.Prompt.planner p.tools task p.executed⟩], .ok text⟩]
      (.ok (Plan.parse text)) :=
  Program.run_ask.mpr ⟨.ok text, [], rfl, Program.run_done.mpr ⟨rfl, rfl⟩⟩

/-- Words in which no tool is called are the result of a step. -/
theorem step_run {text : String} (htext : ToolCall.parse? text = none) (patience : Nat)
    (bound : List Handle) (maxRounds : Nat) (system user : String) :
    (step (patience + 1) bound maxRounds system user).Run
      [⟨.complete [⟨.system, system⟩, ⟨.user, user⟩], .ok text⟩] (.ok ⟨Text.trim text, 0⟩) := by
  refine Program.run_ask.mpr ⟨.ok text, [], rfl, ?_⟩
  dsimp only [Program.bind]
  rw [htext]
  split <;> exact Program.run_done.mpr ⟨rfl, rfl⟩

theorem observe_run (e : Engine) (task : String) {p : Progress} {last : Plan.StepRecord}
    (hlast : p.completed.getLast? = some last) {text : String}
    (htext : Text.isBlankText text = false) :
    (observe e task p).Run
      [⟨.complete [⟨.user, Plan.Prompt.observer task last.step last.result p.remaining
        e.limits.previewChars⟩], .ok text⟩] (Verdict.parse text) := by
  unfold observe
  rw [hlast]
  refine Program.run_ask.mpr ⟨.ok text, [], rfl, ?_⟩
  dsimp only [Program.bind]
  rw [htext]
  exact Program.run_done.mpr ⟨rfl, rfl⟩

/-- A skill and an engine for examples of runs. -/
def sampleSkill : Skill := ⟨"weather", "", [], .text "p"⟩

@[inherit_doc sampleSkill]
def sampleEngine : Engine := ⟨{ maxReplans := 1 }, 1⟩

end Switchboard.Engine
