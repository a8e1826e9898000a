import Switchboard.Proofs.Completion
import Switchboard.Proofs.Oracles
import Switchboard.Proofs.ToolRights

/-! Runs whose listener leaves while the model is called. -/
namespace Switchboard

namespace Exchange

def IsCall (x : Exchange) : Prop := x.completion?.isSome

theorem IsCall.not_toListener {x : Exchange} (h : x.IsCall) : x.1.toListener = false := by
  obtain ⟨r, answer⟩ := x
  cases r <;> first | rfl | cases h

theorem toListener_of_not_attended {x : Exchange} (h : ¬ x.Attended) : x.1.toListener = true := by
  obtain ⟨r, answer⟩ := x
  cases r <;> first | rfl | exact absurd trivial h

theorem event?_of_not_attended {x : Exchange} (h : ¬ x.Attended) : x.event? = none := by
  obtain ⟨r, answer⟩ := x
  cases r with
  | emit event =>
    cases answer with
    | true => exact absurd rfl h
    | false => rfl
  | _ => rfl

end Exchange

theorem Request.exists_not_attended {r : Request} (h : r.toListener = true) :
    ∃ x : r.Answer, ¬ Exchange.Attended ⟨r, x⟩ := by
  cases r with
  | emit event => exact ⟨false, Bool.false_ne_true⟩
  | isClosed => exact ⟨true, Bool.true_eq_false.mp⟩
  | _ => cases h

namespace Trace

theorem events_of_work {t : Trace} (h : ∀ x ∈ t, x.1.toListener = false) : t.events = [] := by
  refine events_of_quiet fun x hx => ?_
  obtain ⟨r, answer⟩ := x
  cases r <;> first | trivial | exact Bool.noConfusion (h _ hx)

theorem events_gone {x : Exchange} (h : ¬ x.Attended) (t : Trace) :
    events (t ++ [x]) = events t := by
  have hnone : events [x] = [] := List.filterMap_cons_none (Exchange.event?_of_not_attended h)
  rw [events_append, hnone, List.append_nil]

theorem work_gone {x : Exchange} (h : ¬ x.Attended) (t : Trace) : work (t ++ [x]) = work t := by
  have hnone : work [x] = [] :=
    List.filter_cons_of_neg (by rw [Exchange.toListener_of_not_attended h]; decide)
  rw [work_append, hnone, List.append_nil]

theorem completions_pos {call : Exchange} (h : call.IsCall) (t : Trace) :
    0 < (completions (call :: t)).length := by
  obtain ⟨c, hc⟩ := Option.isSome_iff_exists.mp h
  have hcompletions : completions (call :: t) = c :: completions t := List.filterMap_cons_some hc
  rw [hcompletions]
  exact Nat.succ_pos _

theorem exists_call {t : Trace} {n : Nat} (hn : 0 < n) (hle : n ≤ t.completions.length) :
    ∃ (before : Trace) (call : Exchange) (after : Trace), t = before ++ call :: after ∧
      call.IsCall ∧ before.completions.length + 1 = n := by
  induction t generalizing n with
  | nil => exact absurd hle (Nat.not_le_of_lt hn)
  | cons x t ih =>
    cases hx : x.completion? with
    | none =>
      have hcompletions : completions (x :: t) = completions t := List.filterMap_cons_none hx
      rw [hcompletions] at hle
      obtain ⟨before, call, after, rfl, hcall, hcount⟩ := ih hn hle
      refine ⟨x :: before, call, after, rfl, hcall, ?_⟩
      rw [← hcount]
      exact congrArg (·.length + 1) (List.filterMap_cons_none hx)
    | some call =>
      have hcompletions : completions (x :: t) = call :: completions t :=
        List.filterMap_cons_some hx
      rw [hcompletions, List.length_cons] at hle
      rcases Nat.eq_or_lt_of_le hn with hone | hmore
      · exact ⟨[], x, t, rfl, by rw [Exchange.IsCall, hx]; rfl, hone⟩
      · obtain ⟨m, rfl⟩ : ∃ m, n = m + 1 := ⟨n - 1, by omega⟩
        obtain ⟨before, call', after, rfl, hcall, hcount⟩ :=
          ih (Nat.lt_of_succ_lt_succ hmore) (Nat.le_of_succ_le_succ hle)
        refine ⟨x :: before, call', after, rfl, hcall, ?_⟩
        rw [← hcount]
        exact congrArg (·.length + 1) (List.filterMap_cons_some hx)

theorem mem_of_getLast?_append {before work : Trace} {call x : Exchange}
    (h : (before ++ call :: work).getLast? = some x) : x ∈ call :: work := by
  rw [List.getLast?_append] at h
  cases hlast : (call :: work).getLast? with
  | none => cases List.getLast?_eq_none_iff.mp hlast
  | some y =>
    rw [hlast, Option.some_or] at h
    rw [← Option.some.inj h]
    exact List.mem_of_getLast? hlast

theorem exists_work (t : Trace) :
    ∃ mid after, t = mid ++ after ∧ (∀ x ∈ mid, x.1.toListener = false) ∧
      ∀ x rest, after = x :: rest → x.1.toListener = true := by
  induction t with
  | nil => exact ⟨[], [], rfl, List.forall_mem_nil _, fun _ _ h => (List.cons_ne_nil _ _ h.symm).elim⟩
  | cons x t ih =>
    cases hx : x.1.toListener with
    | true =>
      refine ⟨[], x :: t, rfl, List.forall_mem_nil _, fun y rest h => ?_⟩
      cases h
      exact hx
    | false =>
      obtain ⟨mid, after, rfl, hmid, hafter⟩ := ih
      exact ⟨x :: mid, after, rfl, List.forall_mem_cons.mpr ⟨hx, hmid⟩, hafter⟩

end Trace

namespace Dialogue

variable {α : Type} {Gone : α → Prop}

/-- The dialogue is over or speaks to the listener next. -/
def AtListener : Dialogue α → Prop
  | Program.done _ => True
  | Program.ask r _ => r.toListener = true

theorem exists_run_of_halts {d : Dialogue α} {t : Trace} {r : Request}
    {next : r.Answer → Dialogue α} (hd : Halts Gone d) (h : d.After t (Program.ask r next))
    {x : r.Answer} (hx : ¬ Exchange.Attended ⟨r, x⟩) :
    ∃ a, d.Run (t ++ [⟨r, x⟩]) a ∧ Gone a := by
  generalize hleft : Program.ask r next = left at h
  induction h with
  | here d =>
    subst hleft
    obtain ⟨a, hover, ha⟩ := (hd x).2 hx
    refine ⟨a, ?_, ha⟩
    exact Program.run_ask.mpr ⟨x, [], rfl, by rw [hover]; exact .here _⟩
  | ask y _ ih =>
    obtain ⟨a, hrun, ha⟩ := ih (hd y).1 hleft
    exact ⟨a, .ask y hrun, ha⟩

end Dialogue

namespace Engine
open Plan (Progress)

variable {e : Engine} {skill : Skill} {task : String} {asks : Nat} {s : State} {p : Progress}
  {t : Trace} {r : Except TurnError Outcome}

theorem fail_halts (err : TurnError) (p : Progress) :
    Dialogue.Halts (· = .error .cancelled) (fail err p) := by
  unfold fail
  split
  next => trivial
  next => exact Dialogue.halts_emit trivial rfl

/-- A run is cancelled where its listener is found to have left. -/
theorem runFrom_halts (s : State) (p : Progress) :
    Dialogue.Halts (· = .error .cancelled) (runFrom e skill task s p) := by
  induction s, p using stage_induction e skill task with
  | done p =>
    rw [runFrom_done]
    trivial
  | stage s p hs ih =>
    rw [runFrom_of_ne hs]
    refine Dialogue.halts_isClosed (Dialogue.halts_bind (transition_halts e skill task s p) ?_ ?_)
      rfl
    · rintro ⟨next, p'⟩ h
      cases next with
      | ok s' => exact ih s' p' h
      | error err => exact fail_halts err p'
    · rintro ⟨next, p'⟩ rfl
      have hover : fail .cancelled p' = pure (.error .cancelled) := if_pos rfl
      exact ⟨_, hover, rfl⟩

theorem execute_halts (asks : Nat) :
    Dialogue.Halts (· = .error .cancelled) (execute e skill task asks) := by
  unfold execute
  split
  · exact runFrom_halts ..
  · rw [runDirect_eq]
    have hwork : Dialogue.Halts (fun _ => False) (answerDirectly e skill task) :=
      Dialogue.halts_of_work answerDirectly_only
    refine Dialogue.halts_bind hwork (fun answered _ => Dialogue.halts_isClosed ?_ rfl)
      fun _ h => h.elim
    cases answered with
    | ok out => exact Dialogue.halts_emit trivial rfl
    | error err => exact Dialogue.halts_emit trivial rfl

/-- A run with an outcome ends in an event. -/
theorem taken_of_course {o : Outcome} (h : Course e skill task s p t o) (hs : s ≠ .done) :
    ∃ t' event, t = t' ++ [Exchange.taken event] := by
  induction h with
  | done => exact absurd rfl hs
  | @stage s s' p p' t t' o _ hstep hrest ih =>
    by_cases hdone : s' = .done
    · subst hdone
      obtain ⟨rfl, -⟩ := eq_of_course_done hrest
      rw [List.append_nil]
      cases hstep with
      | refused | asked => exact ⟨[Exchange.present], _, rfl⟩
      | answered => exact ⟨[Exchange.present, _, _], _, rfl⟩
      | rested => exact absurd rfl hs
    · obtain ⟨t', event, rfl⟩ := ih hdone
      exact ⟨.present :: (t ++ t'), event, by rw [← List.append_assoc, List.cons_append]⟩
  | failed => exact ⟨_, _, (List.cons_append ..).symm⟩

/-- Once it is loaded, only its listener can cancel a run. -/
theorem ok_of_attended (h : (runFrom e skill task s p).Run t r) (ha : t.Attended)
    (hs : s ≠ .preload) : ∃ o, r = .ok o := by
  induction s, p using stage_induction e skill task generalizing t with
  | done p =>
    rw [runFrom_done] at h
    exact ⟨_, (Program.run_done.mp h).2⟩
  | stage s p hdone ih =>
    rw [runFrom_of_ne hdone] at h
    obtain ⟨t, rfl, h, ha⟩ := Dialogue.run_isClosed h ha
    obtain ⟨t₁, ⟨next, p'⟩, t₂, rfl, hstage, hrest⟩ := Program.run_bind.mp h
    obtain ⟨ha₁, ha₂⟩ := Trace.attended_append.mp ha
    have hstep := step_of_transition hstage ha₁
    cases next with
    | ok s' => exact ih s' p' hstage.returns hrest ha₂ (ne_preload_of_step hstep)
    | error err =>
      have herr : err ≠ .cancelled := by
        cases hstep with
        | unloaded => exact absurd rfl hs
        | unplanned | notReplanned | unanswered => nofun
      change (fail err p').Run t₂ r at hrest
      rw [fail, if_neg herr] at hrest
      obtain ⟨t', rfl, hend, -⟩ := Dialogue.run_emit hrest ha₂
      exact ⟨_, (Program.run_done.mp hend).2⟩

/-- A run that is over for a listener who stays has told an event after its last call. -/
theorem taken_of_execute (h : (execute e skill task asks).Run t r) (ha : t.Attended) :
    t.completions = [] ∨ ∃ t' event, t = t' ++ [Exchange.taken event] := by
  unfold execute at h
  split at h
  · have hs : State.preload ≠ .done := nofun
    cases r with
    | ok o => exact .inr (taken_of_course (course_of_ok h) hs)
    | error err =>
      refine .inl ?_
      rw [run, runFrom_of_ne hs] at h
      obtain ⟨t, rfl, h, ha⟩ := Dialogue.run_isClosed h ha
      obtain ⟨t₁, ⟨next, p'⟩, t₂, rfl, hstage, hrest⟩ := Program.run_bind.mp h
      obtain ⟨ha₁, ha₂⟩ := Trace.attended_append.mp ha
      have hstep := step_of_transition hstage ha₁
      cases next with
      | ok s' =>
        obtain ⟨o, ho⟩ := ok_of_attended hrest ha₂ (ne_preload_of_step hstep)
        cases ho
      | error err' =>
        cases hstep
        change (fail err' _).Run t₂ _ at hrest
        unfold fail at hrest
        split at hrest
        next =>
          obtain ⟨rfl, -⟩ := Program.run_done.mp hrest
          rfl
        next =>
          obtain ⟨t', rfl, hend, -⟩ := Dialogue.run_emit hrest ha₂
          cases (Program.run_done.mp hend).2
  · obtain ⟨o, rfl, -⟩ := events_of_runDirect h ha
    obtain ⟨t₁, answered, event, -, rfl, -⟩ := answered_of_runDirect h
    exact .inr ⟨t₁ ++ [Exchange.present], event, by rw [List.append_assoc]; rfl⟩

/-- One stage of a run with what came before it, or the answer of a direct run. -/
inductive Part (e : Engine) (skill : Skill) (task : String) (asks : Nat) : Trace → Trace → Prop where
  | stage {s : State} {p : Progress} {first t : Trace} {out : Except TurnError State × Progress} :
    e.limits.mode = .planExecute →
    (execute e skill task asks).After first (runFrom e skill task s p) → s ≠ .done →
    (transition e skill task s p).Run t out →
    Part e skill task asks (first ++ [Exchange.present]) t
  | direct {p : Progress} {first t : Trace} {out : Except ModelError StepOutput} :
    e.limits.mode = .direct → (preload skill (.start 0)).Run first (.ok (), p) →
    (step e.patience p.tools e.limits.maxToolRounds (Plan.Prompt.stepSystem p.skillPrompt p.tools)
      (Plan.Prompt.direct task)).Run t out →
    Part e skill task asks first t

/-- After a stage a run speaks to its listener, if it goes on. -/
theorem toListener_of_proceed {out : Except TurnError State × Progress} {x : Exchange}
    (h : (proceed e skill task out).Run (x :: t) r) : x.1.toListener = true := by
  obtain ⟨next, p⟩ := out
  cases next with
  | ok s =>
    change (runFrom e skill task s p).Run (x :: t) r at h
    by_cases hs : s = .done
    · subst hs
      rw [runFrom_done] at h
      cases (Program.run_done.mp h).1
    · rw [runFrom_of_ne hs] at h
      obtain ⟨closed, t', heq, -⟩ := Program.run_ask.mp h
      cases heq
      rfl
  | error err =>
    change (fail err p).Run (x :: t) r at h
    unfold fail at h
    split at h
    next => cases (Program.run_done.mp h).1
    next =>
      obtain ⟨taken, t', heq, -⟩ := Program.run_ask.mp h
      cases heq
      rfl

theorem length_of_emit {event : Event} {a b : Except TurnError Outcome}
    (h : (Dialogue.emit event >>= fun taken => if taken = true then pure a else pure b).Run t r) :
    t.length = 1 := by
  obtain ⟨taken, t', rfl, hend⟩ := Program.run_send.mp h
  cases taken with
  | true => rw [(Program.run_done.mp hend).1, List.length_singleton]
  | false => rw [(Program.run_done.mp hend).1, List.length_singleton]

theorem length_of_fail {err : TurnError} (h : (fail err p).Run t r) : t.length ≤ 1 := by
  unfold fail at h
  split at h
  next =>
    rw [(Program.run_done.mp h).1]
    exact Nat.zero_le 1
  next => exact Nat.le_of_eq (length_of_emit h)

/-- A request to the listener that comes first comes before all work. -/
theorem exists_before {before work t : Trace} {x y : Exchange}
    (heq : before ++ (work ++ [x]) = y :: t) (hy : y.1.toListener = true) (hne : work ≠ [])
    (hwork : ∀ z ∈ work, z.1.toListener = false) :
    ∃ rest, before = y :: rest ∧ t = rest ++ (work ++ [x]) := by
  cases before with
  | nil =>
    obtain ⟨z, rest, rfl⟩ := List.exists_cons_of_ne_nil hne
    cases heq
    rw [hwork _ List.mem_cons_self] at hy
    cases hy
  | cons z rest =>
    cases heq
    exact ⟨rest, rfl, rfl⟩

/-- Work that is begun in a stage is done in it, for no work comes first after a stage. -/
theorem done_of_proceed {out : Except TurnError State × Progress} {work done rest : Trace}
    {x : Exchange} (h : (proceed e skill task out).Run rest r)
    (hwork : ∀ y ∈ work, y.1.toListener = false) (hsplit : work ++ [x] = done ++ rest) :
    ∃ late, done = work ++ late ∧ [x] = late ++ rest := by
  rcases List.append_eq_append_iff.mp hsplit with hall | ⟨more, rfl, rfl⟩
  · exact hall
  · cases more with
    | nil => exact ⟨[], by simp, rfl⟩
    | cons y more =>
      have hmeets := toListener_of_proceed h
      rw [hwork y (by simp)] at hmeets
      cases hmeets

/-- Work that is followed by a single exchange, the last one of the run, is that of one stage. -/
theorem stage_of_work {before work : Trace} {x : Exchange}
    (h : (runFrom e skill task s p).Run (before ++ (work ++ [x])) r) (hne : work ≠ [])
    (hwork : ∀ y ∈ work, y.1.toListener = false) :
    ∃ s' p' first early late tail out,
      (runFrom e skill task s p).After first (runFrom e skill task s' p') ∧ s' ≠ .done ∧
      (transition e skill task s' p').Run (early ++ (work ++ late)) out ∧
      before = first ++ [Exchange.present] ++ early ∧ late ++ tail = [x] := by
  induction s, p using stage_induction e skill task generalizing before with
  | done p =>
    rw [runFrom_done] at h
    have hnil := (Program.run_done.mp h).1
    simp at hnil
  | stage s p hs ih =>
    rw [runFrom_of_ne hs] at h
    obtain ⟨closed, t, heq, h⟩ := Program.run_send.mp h
    obtain ⟨before, rfl, rfl⟩ := exists_before heq rfl hne hwork
    cases closed with
    | true =>
      have hnil := (Program.run_done.mp h).1
      simp at hnil
    | false =>
      obtain ⟨t₁, ⟨next, p'⟩, t₂, heq, hstage, hrest⟩ := Program.run_bind.mp h
      rcases List.append_eq_append_iff.mp heq with ⟨done, rfl, hsplit⟩ | ⟨rest, rfl, rfl⟩
      · obtain ⟨late, rfl, htail⟩ := done_of_proceed hrest hwork hsplit
        exact ⟨s, p, [], before, late, t₂, (next, p'), .here _, hs, hstage, rfl, htail.symm⟩
      · -- The work comes after this stage.
        cases next with
        | error err =>
          have hlength := length_of_fail hrest
          have hpos := List.length_pos_iff.mpr hne
          simp only [List.length_append, List.length_singleton] at hlength
          omega
        | ok s' =>
          obtain ⟨s'', p'', first, early, late, tail, out, hafter, hs'', hrun, rfl, htail⟩ :=
            ih s' p' hstage.returns hrest
          refine ⟨s'', p'', _, early, late, tail, out, (after_of_stage hs hstage).append hafter,
            hs'', hrun, ?_, htail⟩
          simp [Exchange.present]

theorem length_of_concludeDirectly {answered : Except TurnError StepOutput}
    (h : (concludeDirectly answered).Run t r) :
    ∃ closed t', t = ⟨.isClosed, closed⟩ :: t' ∧ t'.length ≤ 1 := by
  obtain ⟨closed, t', rfl, hopen⟩ := Program.run_send.mp h
  refine ⟨closed, t', rfl, ?_⟩
  cases closed with
  | true =>
    rw [(Program.run_done.mp hopen).1]
    exact Nat.zero_le 1
  | false =>
    cases answered with
    | ok out => exact Nat.le_of_eq (length_of_emit hopen)
    | error err => exact Nat.le_of_eq (length_of_emit hopen)

/-- Work that is followed by a single exchange, the last one of a direct run, is that of its
answer. -/
theorem answer_of_work {work : Trace} {x : Exchange}
    (h : (runDirect e skill task).Run (work ++ [x]) r)
    (hlast : ∀ y, work.getLast? = some y → y.1.toListener = false) :
    ∃ answered, (answerDirectly e skill task).Run work answered := by
  rw [runDirect_eq] at h
  obtain ⟨t₁, answered, t₂, heq, hanswer, hend⟩ := Program.run_bind.mp h
  obtain ⟨closed, t₂, rfl, hlength⟩ := length_of_concludeDirectly hend
  cases t₂ with
  | nil =>
    obtain ⟨rfl, -⟩ := List.append_inj' heq rfl
    exact ⟨answered, hanswer⟩
  | cons y rest =>
    obtain rfl : rest = [] := List.eq_nil_of_length_eq_zero (by simpa using hlength)
    rw [List.append_cons t₁] at heq
    obtain ⟨rfl, -⟩ := List.append_inj' heq rfl
    cases hlast ⟨.isClosed, closed⟩ (by simp)

/-- What a direct run answers, the call of the model included, is that of its step. -/
theorem step_of_work {before work : Trace} {call : Exchange}
    {answered : Except TurnError StepOutput}
    (h : (answerDirectly e skill task).Run (before ++ call :: work) answered)
    (hcall : call.IsCall) :
    ∃ p first early out, (preload skill (.start 0)).Run first (.ok (), p) ∧
      (step e.patience p.tools e.limits.maxToolRounds
        (Plan.Prompt.stepSystem p.skillPrompt p.tools)
        (Plan.Prompt.direct task)).Run (early ++ call :: work) out ∧
      before = first ++ early := by
  obtain ⟨first, ⟨loaded, p⟩, t₂, heq, hload, hanswer⟩ := Program.run_bind.mp h
  have hnot : call ∉ first := by
    intro hm
    have hof := (preload_only skill (.start 0)).of_mem hload call hm
    obtain ⟨r, answer⟩ := call
    cases r <;> first | exact hof | cases hcall
  obtain ⟨early, rfl, rfl⟩ : ∃ early, before = first ++ early ∧ t₂ = early ++ call :: work := by
    rcases List.append_eq_append_iff.mp heq with ⟨rest, rfl, hrest⟩ | hearly
    · cases rest with
      | nil => exact ⟨[], by simp, hrest.symm⟩
      | cons y rest =>
        cases hrest
        exact absurd (by simp) hnot
    · exact hearly
  cases loaded with
  | error err =>
    have hnil := (Program.run_done.mp hanswer).1
    simp at hnil
  | ok u =>
    obtain ⟨t₃, out, t₄, heq, hstep, hdone⟩ := Program.run_bind.mp hanswer
    obtain ⟨rfl, -⟩ := Program.run_done.mp hdone
    rw [List.append_nil] at heq
    exact ⟨p, first, early, out, hload, by rwa [heq], rfl⟩

/-- What is done from a call of the model on, up to a single exchange that ends the run, is done in
one part of the run. -/
theorem part_of_work {before work : Trace} {call x : Exchange}
    (h : (execute e skill task asks).Run (before ++ call :: (work ++ [x])) r) (hcall : call.IsCall)
    (hwork : ∀ y ∈ work, y.1.toListener = false) :
    ∃ first early late tail, Part e skill task asks first (early ++ call :: (work ++ late)) ∧
      before = first ++ early ∧ late ++ tail = [x] := by
  have hall : ∀ y ∈ call :: work, y.1.toListener = false :=
    List.forall_mem_cons.mpr ⟨hcall.not_toListener, hwork⟩
  cases hmode : e.limits.mode with
  | planExecute =>
    have hexecute : execute e skill task asks = runFrom e skill task .preload (.start asks) := by
      rw [execute, hmode, run]
    rw [hexecute] at h
    obtain ⟨s, p, first, early, late, tail, out, hafter, hs, hrun, hbefore, htail⟩ :=
      stage_of_work h (List.cons_ne_nil call work) hall
    exact ⟨_, early, late, tail, .stage hmode (by rw [hexecute]; exact hafter) hs hrun, hbefore,
      htail⟩
  | direct =>
    rw [execute, hmode] at h
    have hsplit : before ++ call :: (work ++ [x]) = before ++ call :: work ++ [x] := by simp
    rw [hsplit] at h
    have hlast : ∀ y, (before ++ call :: work).getLast? = some y → y.1.toListener = false :=
      fun y hy => hall y (Trace.mem_of_getLast?_append hy)
    obtain ⟨answered, hanswer⟩ := answer_of_work h hlast
    obtain ⟨p, first, early, out, hload, hrun, rfl⟩ := step_of_work hanswer hcall
    refine ⟨first, early, [], [x], ?_, rfl, rfl⟩
    rw [List.append_nil]
    exact .direct hmode hload hrun

/-- For a listener who stays no run is over while the model is called. -/
theorem not_run_of_work {before work : Trace} {call : Exchange}
    (h : (execute e skill task asks).Run (before ++ call :: work) r)
    (ha : Trace.Attended (before ++ call :: work)) (hcall : call.IsCall)
    (hall : ∀ x ∈ call :: work, x.1.toListener = false) : False := by
  rcases taken_of_execute h ha with hnone | ⟨t', event, heq⟩
  · have hmem : call ∈ before ++ call :: work := by simp
    have hno := List.filterMap_eq_nil_iff.mp hnone call hmem
    rw [Exchange.IsCall, hno] at hcall
    cases hcall
  · have hlast : (before ++ call :: work).getLast? = some (.taken event) := by
      rw [heq, List.getLast?_concat]
    cases hall _ (Trace.mem_of_getLast?_append hlast)

/-- A listener who leaves when the `n`-th call of the model begins. -/
def leaving (n : Nat) (past : Trace) : Bool := past.completions.length < n

theorem gives_leaving {script : Oracle} {before work : Trace} {call : Exchange}
    (hg : (script.heardBy fun _ => true).Gives [] (before ++ call :: work))
    (hall : ∀ x ∈ call :: work, x.1.toListener = false) :
    (script.heardBy (leaving (before.completions.length + 1))).Gives []
      (before ++ call :: work) := by
  refine hg.of_stays fun earlier x later heq hx => ?_
  obtain ⟨more, rfl⟩ : ∃ more, before = earlier ++ more := by
    rcases List.append_eq_append_iff.mp heq with ⟨rest, rfl, hrest⟩ | ⟨more, hmore, -⟩
    · have hmem : x ∈ call :: work := by
        rw [hrest]
        simp
      rw [hall x hmem] at hx
      cases hx
    · exact ⟨more, hmore⟩
  rw [List.nil_append, Trace.completions_append, List.length_append]
  exact (decide_eq_true (by omega)).symm

/-- How a run goes whose listener leaves when the `n`-th call of the model begins, beside the run `t`
whose listener stays. It is cancelled. Up to the call it went as the other, it tells no event after
it, and what it still does, as the other did, is done in the part of the run that the call belongs
to. -/
structure CutShort (e : Engine) (skill : Skill) (task : String) (asks : Nat) (script : Oracle)
    (n : Nat) (t before work : Trace) (call gone : Exchange) (t' : Trace) : Prop where
  stayed : ∃ after, t = before ++ call :: (work ++ after)
  left : t' = before ++ call :: (work ++ [gone])
  nth : call.IsCall ∧ before.completions.length + 1 = n
  works : ∀ x ∈ work, x.1.toListener = false
  noticed : ¬ gone.Attended
  cancelled : (execute e skill task asks).Run t' (.error .cancelled)
  answered : (script.heardBy (leaving n)).Gives [] t'
  unique : ∀ t'' r, (execute e skill task asks).Run t'' r →
    (script.heardBy (leaving n)).Gives [] t'' → t'' = t' ∧ r = .error .cancelled
  told : t'.events = before.events
  done : t'.work <+: t.work
  part : ∃ first early late tail, Part e skill task asks first (early ++ call :: (work ++ late)) ∧
    before = first ++ early ∧ late ++ tail = [gone]

/-- A run that goes on for a listener who stays speaks to the listener after the work that follows a
call of the model. -/
theorem listener_of_work {before work after : Trace} {call : Exchange}
    {left : Dialogue (Except TurnError Outcome)}
    (h : (execute e skill task asks).After (before ++ call :: work ++ after) left)
    (hleft : Dialogue.AtListener left) (ha : Trace.Attended (before ++ call :: work))
    (hcall : call.IsCall) (hall : ∀ x ∈ call :: work, x.1.toListener = false)
    (hafter : ∀ x rest, after = x :: rest → x.1.toListener = true) :
    ∃ (r : Request) (next : r.Answer → Dialogue (Except TurnError Outcome)),
      (execute e skill task asks).After (before ++ call :: work) (.ask r next) ∧
        r.toListener = true := by
  obtain ⟨mid, hmid, hrest⟩ := Program.after_append.mp h
  have hmeets : Dialogue.AtListener mid := by
    cases hrest with
    | here => exact hleft
    | ask x hrest => exact hafter _ _ rfl
  cases mid with
  | done a => exact (not_run_of_work hmid ha hcall hall).elim
  | ask r next => exact ⟨r, next, hmid, hmeets⟩

/-- To leave only cuts a run short. -/
theorem cancelled_of_leaving {script : Oracle} {left : Dialogue (Except TurnError Outcome)} {n : Nat}
    (h : (execute e skill task asks).After t left) (hleft : Dialogue.AtListener left)
    (hg : (script.heardBy fun _ => true).Gives [] t) (hn : 0 < n)
    (hle : n ≤ t.completions.length) :
    ∃ before work call gone t', CutShort e skill task asks script n t before work call gone t' := by
  have ha := Oracle.attended_of_gives hg
  obtain ⟨before, call, rest, rfl, hcall, rfl⟩ := Trace.exists_call hn hle
  obtain ⟨work, after, rfl, hwork, hafter⟩ := Trace.exists_work rest
  have hall : ∀ x ∈ call :: work, x.1.toListener = false :=
    List.forall_mem_cons.mpr ⟨hcall.not_toListener, hwork⟩
  rw [← List.cons_append, ← List.append_assoc] at h hg ha
  obtain ⟨hg, -⟩ := Oracle.gives_append.mp hg
  obtain ⟨ha, -⟩ := Trace.attended_append.mp ha
  obtain ⟨r, next, hmid, hmeets⟩ := listener_of_work h hleft ha hcall hall hafter
  obtain ⟨x, hx⟩ := Request.exists_not_attended hmeets
  obtain ⟨_, hrun, rfl⟩ := Dialogue.exists_run_of_halts (execute_halts asks) hmid hx
  have hgone : script.heardBy (leaving (before.completions.length + 1))
      (before ++ call :: work) r = some x := by
    refine Oracle.heardBy_of_left hx (decide_eq_false ?_)
    have hpos := Trace.completions_pos hcall work
    rw [Trace.completions_append, List.length_append]
    omega
  have hgives : (script.heardBy (leaving (before.completions.length + 1))).Gives []
      (before ++ call :: work ++ [⟨r, x⟩]) :=
    Oracle.gives_concat.mpr ⟨gives_leaving hg hall, hgone⟩
  have hevents : Trace.events (before ++ call :: work ++ [⟨r, x⟩]) = before.events := by
    rw [Trace.events_gone hx, Trace.events_append, Trace.events_of_work hall, List.append_nil]
  have hprefix : Trace.work (before ++ call :: work ++ [⟨r, x⟩]) <+:
      Trace.work (before ++ call :: work ++ after) := by
    rw [Trace.work_gone hx, Trace.work_append _ after]
    exact List.prefix_append ..
  rw [List.append_assoc, List.cons_append] at hrun hgives hevents hprefix
  rw [List.append_assoc before, List.cons_append] at hprefix
  refine ⟨before, work, call, ⟨r, x⟩, before ++ call :: (work ++ [⟨r, x⟩]), ?_⟩
  constructor
  case stayed => exact ⟨after, rfl⟩
  case left => rfl
  case nth => exact ⟨hcall, rfl⟩
  case works => exact hwork
  case noticed => exact hx
  case cancelled => exact hrun
  case answered => exact hgives
  case unique => exact fun _ _ hrun' hgives' => hgives'.eq_of_run hrun' hgives hrun
  case told => exact hevents
  case done => exact hprefix
  case part => exact part_of_work hrun hcall hwork

theorem planned_sample : ∃ (t : Trace) (left : Dialogue (Except TurnError Outcome)),
    (execute sampleEngine sampleSkill "t" 0).After t left ∧ Dialogue.AtListener left ∧
    ((Oracle.saying "查").heardBy fun _ => true).Gives [] t ∧ 1 ≤ t.completions.length := by
  have hpreload : State.preload ≠ .done := nofun
  have hplanning : State.planning ≠ .done := nofun
  have hexecuting : State.executing ≠ .done := nofun
  have hloaded : (runFrom sampleEngine sampleSkill "t" .preload (.start 0)).After _ _ :=
    after_of_stage hpreload (transition_of_step (.loaded _ "p" [] (preload_run rfl _ "p")))
  have hplanned : (runFrom sampleEngine sampleSkill "t" .planning
      { Progress.start 0 with skillPrompt := "p" }).After _ _ :=
    after_of_stage hplanning (transition_of_step (.planned _ (plan_run "t" _ "查")))
  have hleft : Dialogue.AtListener (runFrom sampleEngine sampleSkill "t" .executing
      (Progress.startPlan ["查"] { Progress.start 0 with skillPrompt := "p" })) := by
    rw [runFrom_of_ne hexecuting]
    rfl
  refine ⟨_, _, hloaded.append hplanned, hleft, ?_, Nat.le_refl 1⟩
  exact ⟨rfl, rfl, rfl, rfl, rfl, rfl, trivial⟩

/-- So it is where the first call asks for a plan. -/
theorem cancelled_of_leaving_planning : ∃ (script : Oracle) (t : Trace)
    (left : Dialogue (Except TurnError Outcome)),
    (execute sampleEngine sampleSkill "t" 0).After t left ∧ Dialogue.AtListener left ∧
    (script.heardBy fun _ => true).Gives [] t ∧ 0 < 1 ∧ 1 ≤ t.completions.length ∧
    ∃ before work call gone t',
      CutShort sampleEngine sampleSkill "t" 0 script 1 t before work call gone t' := by
  obtain ⟨t, left, hafter, hleft, hg, hle⟩ := planned_sample
  exact ⟨_, t, left, hafter, hleft, hg, Nat.one_pos, hle,
    cancelled_of_leaving hafter hleft hg Nat.one_pos hle⟩

end Engine
end Switchboard
