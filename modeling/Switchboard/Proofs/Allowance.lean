import Mathlib.Algebra.GroupWithZero.Nat
import Switchboard.Proofs.RunOutcomes

/-! What a planned run may spend: plans, stages, and the steps of its plans. -/
namespace Switchboard

theorem Text.getLast?_joined (between : String) {parts : List String} {last : String} {c : Char}
    (hlast : parts.getLast? = some last) (hc : last.toList.getLast? = some c) :
    (joined between parts).toList.getLast? = some c := by
  unfold joined
  induction parts with
  | nil => cases hlast
  | cons part parts ih =>
    cases parts with
    | nil =>
      cases hlast
      rw [String.intercalate_singleton]
      exact hc
    | cons next rest =>
      have hrest : (next :: rest).getLast? = some last := by
        rw [← hlast, List.getLast?_cons_cons]
      rw [String.intercalate_cons_cons, String.toList_append, List.getLast?_append, ih hrest]
      rfl

namespace Plan.Prompt

theorem getLast?_planner (tools : List Handle) (user : String) (executed : List StepRecord) :
    (planner tools user executed).toList.getLast? = some '：' :=
  Text.getLast?_joined "\n" rfl (by decide : "请输出接下来要执行的步骤（每行一个）：".toList.getLast? = _)

theorem getLast?_observer (user step result : String) (remaining : List String) (preview : Nat) :
    (observer user step result remaining preview).toList.getLast? = some '"' :=
  Text.getLast?_joined "\n" rfl
    (by decide : "- 如果结果异常或需要调整计划，回复 \"REPLAN: [原因和建议]\"".toList.getLast? = _)

theorem getLast?_final (skillPrompt user : String) (superseded completed : List StepRecord) :
    (final skillPrompt user superseded completed).toList.getLast? = some '。' :=
  Text.getLast?_joined "\n" rfl
    (by decide : "请根据以上所有步骤的结果，生成对用户问题的最终完整回复。".toList.getLast? = _)

end Plan.Prompt

def Event.started? : Event → Option String
  | .actionStart _ _ step => some step
  | _ => none

/-- The steps started before the next plan is told. -/
def Event.startedNext (events : List Event) : List String :=
  (events.takeWhile (·.plan?.isNone)).filterMap started?

/-- Each plan that is told, with the steps that are started before the next one is told. -/
def Event.followed : List Event → List (List String × List String)
  | [] => []
  | event :: events =>
    match event.plan? with
    | some steps => (steps, startedNext events) :: followed events
    | none => followed events

/-- The steps that are started are the ones ahead, in their order, until the next plan is told, and
then those of that plan from its first one on. -/
structure Event.Fits (ahead : List String) (events : List Event) : Prop where
  next : startedNext events <+: ahead
  followed : ∀ f ∈ followed events, f.2 <+: f.1
  started : (events.filterMap started?).length ≤
    ahead.length + ((events.filterMap plan?).map List.length).sum

namespace Event

variable {ahead steps : List String} {step : String} {event : Event} {events : List Event}

theorem started?_of_plan? (h : event.plan? = some steps) : event.started? = none := by
  cases event <;> first | rfl | cases h

theorem plan?_of_started? (h : event.started? = some step) : event.plan? = none := by
  cases event <;> first | rfl | cases h

theorem startedNext_cons (h : event.plan? = none) :
    startedNext (event :: events) = event.started?.toList ++ startedNext events := by
  rw [startedNext, List.takeWhile_cons, h]
  change List.filterMap started? (event :: _) = _
  rw [List.filterMap_cons]
  cases event.started? <;> rfl

theorem Fits.nil (ahead : List String) : Fits ahead [] where
  next := List.nil_prefix
  followed := nofun
  started := Nat.zero_le _

theorem Fits.told (h : Fits steps events) (hplan : event.plan? = some steps)
    (ahead : List String) : Fits ahead (event :: events) where
  next := by
    rw [startedNext, List.takeWhile_cons, hplan]
    exact List.nil_prefix
  followed := by
    rw [Event.followed, hplan]
    exact List.forall_mem_cons.mpr ⟨h.next, h.followed⟩
  started := by
    have hstarted := h.started
    rw [List.filterMap_cons_none (started?_of_plan? hplan), List.filterMap_cons_some hplan,
      List.map_cons, List.sum_cons]
    omega

theorem Fits.started_cons (h : Fits ahead events) (hstep : event.started? = some step) :
    Fits (step :: ahead) (event :: events) where
  next := by
    rw [startedNext_cons (plan?_of_started? hstep), hstep]
    exact (List.prefix_cons_inj step).mpr h.next
  followed := by
    rw [Event.followed, plan?_of_started? hstep]
    exact h.followed
  started := by
    have hstarted := h.started
    rw [List.filterMap_cons_none (plan?_of_started? hstep), List.filterMap_cons_some hstep,
      List.length_cons, List.length_cons]
    omega

theorem Fits.cons (h : Fits ahead events) (hplan : event.plan? = none)
    (hstep : event.started? = none) : Fits ahead (event :: events) where
  next := by
    rw [startedNext_cons hplan, hstep]
    exact h.next
  followed := by
    rw [Event.followed, hplan]
    exact h.followed
  started := by
    rw [List.filterMap_cons_none hplan, List.filterMap_cons_none hstep]
    exact h.started

end Event

namespace Request

def AsksPlan (r : Request) : Prop :=
  ∃ tools task executed, r = .complete [⟨.user, Plan.Prompt.planner tools task executed⟩]

/-- The model is told the beginning of a step: the system's part and the user's. -/
def Opens (r : Request) : Prop := ∃ first second, r = .complete [first, second]

def Takes (step : String) (r : Request) : Prop :=
  ∃ system task completed,
    r = .complete [⟨.system, system⟩, ⟨.user, Plan.Prompt.step step task completed⟩]

theorem Takes.opens {step : String} {r : Request} (h : r.Takes step) : r.Opens := by
  obtain ⟨_, _, _, rfl⟩ := h
  exact ⟨_, _, rfl⟩

theorem Opens.ne_isClosed {r : Request} (h : r.Opens) : r ≠ .isClosed := by
  obtain ⟨_, _, rfl⟩ := h
  nofun

theorem AsksPlan.ne_isClosed {r : Request} (h : r.AsksPlan) : r ≠ .isClosed := by
  obtain ⟨_, _, _, rfl⟩ := h
  nofun

/-- A plan is asked for in one message, a step is begun in two. -/
theorem AsksPlan.not_opens {r : Request} (h : r.AsksPlan) : ¬ r.Opens := by
  obtain ⟨_, _, _, rfl⟩ := h
  rintro ⟨_, _, h⟩
  cases h

/-- A request that a run may make at any time. -/
structure Free (r : Request) : Prop where
  plans : ¬ r.AsksPlan
  opens : ¬ r.Opens
  looks : r ≠ .isClosed

theorem free_emit (event : Event) : (emit event).Free where
  plans := by rintro ⟨_, _, _, h⟩; cases h
  opens := by rintro ⟨_, _, h⟩; cases h
  looks := nofun

theorem OfLoad.free {r : Request} (h : r.OfLoad) : r.Free where
  plans := by rintro ⟨_, _, _, rfl⟩; exact h
  opens := by rintro ⟨_, _, rfl⟩; exact h
  looks := by rintro rfl; exact h

/-- Of all that a run asks of the model in a single message, only the planner's prompt ends in a
colon. -/
theorem free_complete {prompt : String} {c : Char} (hc : prompt.toList.getLast? = some c)
    (hcolon : c ≠ '：') : (complete [⟨.user, prompt⟩]).Free where
  plans := by
    rintro ⟨tools, task, executed, heq⟩
    have hprompt : prompt = Plan.Prompt.planner tools task executed := by
      injection heq with heq
      injection heq with heq
      injection heq
    rw [hprompt, Plan.Prompt.getLast?_planner] at hc
    exact hcolon (Option.some.inj hc).symm
  opens := by rintro ⟨_, _, h⟩; cases h
  looks := nofun

theorem free_observer (user step result : String) (remaining : List String) (preview : Nat) :
    (complete [⟨.user, Plan.Prompt.observer user step result remaining preview⟩]).Free :=
  free_complete (Plan.Prompt.getLast?_observer ..) (by decide)

theorem free_final (skillPrompt user : String) (superseded completed : List Plan.StepRecord) :
    (complete [⟨.user, Plan.Prompt.final skillPrompt user superseded completed⟩]).Free :=
  free_complete (Plan.Prompt.getLast?_final ..) (by decide)

/-- A request in the course of a step: what the model is told has its reply and the tool's in it. -/
def OfTalk : Request → Prop
  | complete messages => 2 < messages.length
  | invoke .. | stall => True
  | _ => False

theorem OfTalk.free {r : Request} (h : r.OfTalk) : r.Free where
  plans := by rintro ⟨_, _, _, rfl⟩; exact absurd h (by decide : ¬ 2 < 1)
  opens := by rintro ⟨_, _, rfl⟩; exact absurd h (by decide : ¬ 2 < 2)
  looks := by rintro rfl; exact h

end Request

namespace Trace

variable {α : Type} {P : Request → Prop} {n m : Nat} {x : Exchange} {t : Trace}

def AtMost (t : Trace) (P : Request → Prop) (n : Nat) : Prop :=
  ∀ chosen : Trace, chosen.Sublist t → (∀ x ∈ chosen, P x.1) → chosen.length ≤ n

theorem atMost_nil (P : Request → Prop) (n : Nat) : AtMost [] P n := by
  intro chosen hchosen _
  rw [List.sublist_nil.mp hchosen]
  exact Nat.zero_le n

theorem AtMost.mono (h : t.AtMost P n) (hle : n ≤ m) : t.AtMost P m :=
  fun chosen hchosen hall => Nat.le_trans (h chosen hchosen hall) hle

theorem AtMost.cons (h : t.AtMost P n) (x : Exchange) : AtMost (x :: t) P (n + 1) := by
  intro chosen hchosen hall
  rcases List.sublist_cons_iff.mp hchosen with hchosen | ⟨rest, rfl, hrest⟩
  · exact Nat.le_succ_of_le (h chosen hchosen hall)
  · exact Nat.succ_le_succ (h rest hrest fun x hx => hall x (List.mem_cons_of_mem _ hx))

theorem AtMost.cons_of_not (h : t.AtMost P n) (hx : ¬ P x.1) : AtMost (x :: t) P n := by
  intro chosen hchosen hall
  rcases List.sublist_cons_iff.mp hchosen with hchosen | ⟨rest, rfl, -⟩
  · exact h chosen hchosen hall
  · exact absurd (hall x List.mem_cons_self) hx

theorem filterMap_events_cons {f : Event → Option α}
    (h : ∀ event, x.event? = some event → f event = none) :
    (events (x :: t)).filterMap f = t.events.filterMap f := by
  unfold events
  cases hevent : x.event? with
  | none => rw [List.filterMap_cons_none hevent]
  | some event => rw [List.filterMap_cons_some hevent, List.filterMap_cons_none (h event hevent)]

/-- What tells no plan and starts no step changes nothing. -/
theorem fits_cons {ahead : List String} (hfits : Event.Fits ahead t.events)
    (h : ∀ event, x.event? = some event → event.plan? = none ∧ event.started? = none) :
    Event.Fits ahead (events (x :: t)) := by
  unfold events
  cases hevent : x.event? with
  | none =>
    rw [List.filterMap_cons_none hevent]
    exact hfits
  | some event =>
    rw [List.filterMap_cons_some hevent]
    exact hfits.cons (h event hevent).1 (h event hevent).2

/-- Each beginning of a step that the model is told is that of the step which is due, and a step is
due only directly after it was started. -/
def TellsDue : (due : Option String) → Trace → Prop
  | _, [] => True
  | due, x :: t =>
    (x.1.Opens → ∃ step, due = some step ∧ x.1.Takes step) ∧
      TellsDue (x.event?.bind Event.started?) t

end Trace

/-- What a run may still do: the plans it may ask for, the stages it may begin, and the steps of its
plan that it may start, in their order. A step that was just started is due. -/
structure Allowance where
  plans : Nat
  stages : Nat
  ahead : List String
  due : Option String := none

/-- Exchanges use up the allowance. A plan that is told renews it: its steps may be started, with two
stages for each and two more to end the run. -/
inductive Allowance.Spends : Allowance → Exchange → Allowance → Prop where
  | plan {plans stages : Nat} {ahead : List String} {r : Request} (answer : r.Answer) :
    r.AsksPlan → Spends ⟨plans + 1, stages, ahead, none⟩ ⟨r, answer⟩ ⟨plans, stages, ahead, none⟩
  | stage {plans stages : Nat} {ahead : List String} (closed : Bool) :
    Spends ⟨plans, stages + 1, ahead, none⟩ ⟨.isClosed, closed⟩ ⟨plans, stages, ahead, none⟩
  | told {plans stages : Nat} {ahead steps : List String} {event : Event} :
    event.plan? = some steps → Spends ⟨plans, stages, ahead, none⟩ (.taken event)
      ⟨plans, stages + 2 * steps.length + 2, steps, none⟩
  | started {plans stages : Nat} {ahead : List String} {step : String} {event : Event} :
    event.started? = some step →
    Spends ⟨plans, stages, step :: ahead, none⟩ (.taken event) ⟨plans, stages, ahead, some step⟩
  | taken {plans stages : Nat} {ahead : List String} {step : String} {r : Request}
    (answer : r.Answer) : r.Takes step →
    Spends ⟨plans, stages, ahead, some step⟩ ⟨r, answer⟩ ⟨plans, stages, ahead, none⟩
  | free {plans stages : Nat} {ahead : List String} {x : Exchange} : x.1.Free →
    (∀ event, x.event? = some event → event.plan? = none ∧ event.started? = none) →
    Spends ⟨plans, stages, ahead, none⟩ x ⟨plans, stages, ahead, none⟩

namespace Allowance

variable {a b : Allowance} {x : Exchange} {t : Trace} {r : Request} {plans stages : Nat}
  {ahead : List String}

theorem spends_of_quiet (hfree : r.Free) (hquiet : r.Quiet) (answer : r.Answer) :
    Spends ⟨plans, stages, ahead, none⟩ ⟨r, answer⟩ ⟨plans, stages, ahead, none⟩ := by
  refine .free hfree fun event hevent => ?_
  rw [Exchange.event?_of_quiet hquiet] at hevent
  cases hevent

/-- Events that tell no plan and start no step cost nothing, nor do those that are not taken. -/
theorem spends_emit {event : Event} {taken : Bool}
    (h : taken = true → event.plan? = none ∧ event.started? = none) :
    Spends ⟨plans, stages, ahead, none⟩ ⟨.emit event, taken⟩ ⟨plans, stages, ahead, none⟩ := by
  refine .free (Request.free_emit event) fun heard hheard => ?_
  cases taken with
  | false => cases hheard
  | true =>
    cases hheard
    exact h rfl

theorem spends_untaken (event : Event) :
    Spends ⟨plans, stages, ahead, none⟩ ⟨.emit event, false⟩ ⟨plans, stages, ahead, none⟩ :=
  spends_emit fun h => absurd h Bool.false_ne_true

structure Keeps (a : Allowance) (t : Trace) : Prop where
  plans : t.AtMost Request.AsksPlan a.plans
  stages : t.AtMost (· = .isClosed)
    (a.stages + ((t.events.filterMap Event.plan?).map (2 * ·.length + 2)).sum)
  steps : t.AtMost Request.Opens
    (a.due.toList.length + (t.events.filterMap Event.started?).length)
  told : t.TellsDue a.due
  fits : Event.Fits a.ahead t.events

theorem keeps_nil (a : Allowance) : a.Keeps [] where
  plans := Trace.atMost_nil _ _
  stages := Trace.atMost_nil _ _
  steps := Trace.atMost_nil _ _
  told := trivial
  fits := .nil _

theorem keeps_cons (h : a.Spends x b) (hb : b.Keeps t) : a.Keeps (x :: t) := by
  obtain ⟨hplans, hstages, hsteps, htold, hfits⟩ := hb
  cases h with
  | @plan plans stages ahead r answer hr =>
    have hopens := hr.not_opens
    have hlooks := hr.ne_isClosed
    obtain ⟨tools, task, executed, rfl⟩ := hr
    exact ⟨hplans.cons _, hstages.cons_of_not hlooks, hsteps.cons_of_not hopens,
      ⟨fun h => absurd h hopens, htold⟩, hfits⟩
  | @stage plans stages ahead closed =>
    have hplan : ¬ Request.isClosed.AsksPlan := fun h => h.ne_isClosed rfl
    have hopens : ¬ Request.isClosed.Opens := fun h => h.ne_isClosed rfl
    refine ⟨hplans.cons_of_not hplan, ?_, hsteps.cons_of_not hopens,
      ⟨fun h => absurd h hopens, htold⟩, hfits⟩
    exact (hstages.cons _).mono (Nat.le_of_eq (Nat.add_right_comm ..))
  | @told plans stages ahead steps event hplan =>
    obtain ⟨hplans', hopens, hlooks⟩ := Request.free_emit event
    have hstep : event.started? = none := Event.started?_of_plan? hplan
    refine ⟨hplans.cons_of_not hplans', ?_, ?_, ⟨fun h => absurd h hopens, ?_⟩,
      hfits.told hplan ahead⟩
    · refine (hstages.cons_of_not hlooks).mono ?_
      rw [Trace.events_taken, List.filterMap_cons_some hplan, List.map_cons, List.sum_cons]
      exact Nat.le_of_eq (by dsimp only; omega)
    · rw [Trace.events_taken, List.filterMap_cons_none hstep]
      exact hsteps.cons_of_not hopens
    · change Trace.TellsDue event.started? t
      rw [hstep]
      exact htold
  | @started plans stages ahead step event hstep =>
    obtain ⟨hplans', hopens, hlooks⟩ := Request.free_emit event
    refine ⟨hplans.cons_of_not hplans', ?_, ?_, ⟨fun h => absurd h hopens, ?_⟩,
      hfits.started_cons hstep⟩
    · rw [Trace.events_taken, List.filterMap_cons_none (Event.plan?_of_started? hstep)]
      exact hstages.cons_of_not hlooks
    · refine (hsteps.cons_of_not hopens).mono ?_
      rw [Trace.events_taken, List.filterMap_cons_some hstep]
      exact Nat.le_of_eq (Nat.add_comm 1 _ |>.trans (Nat.zero_add _).symm)
    · change Trace.TellsDue event.started? t
      rw [hstep]
      exact htold
  | @taken plans stages ahead step r answer hr =>
    have hplans' : ¬ r.AsksPlan := fun h => h.not_opens hr.opens
    have hlooks := hr.opens.ne_isClosed
    have htakes := hr
    obtain ⟨system, task, completed, rfl⟩ := hr
    refine ⟨hplans.cons_of_not hplans', hstages.cons_of_not hlooks, ?_,
      ⟨fun _ => ⟨step, rfl, htakes⟩, htold⟩, hfits⟩
    exact (hsteps.cons _).mono (Nat.le_of_eq (Nat.add_right_comm ..))
  | @free plans stages ahead x hfree hquiet =>
    obtain ⟨hplans', hopens, hlooks⟩ := hfree
    have hplan := Trace.filterMap_events_cons (t := t) fun event h => (hquiet event h).1
    have hstep := Trace.filterMap_events_cons (t := t) fun event h => (hquiet event h).2
    refine ⟨hplans.cons_of_not hplans', ?_, ?_, ⟨fun h => absurd h hopens, ?_⟩, ?_⟩
    · rw [hplan]
      exact hstages.cons_of_not hlooks
    · rw [hstep]
      exact hsteps.cons_of_not hopens
    · have hdue : x.event?.bind Event.started? = none := by
        simpa using fun event h => (hquiet event h).2
      rw [hdue]
      exact htold
    · exact Trace.fits_cons hfits hquiet

end Allowance
end Switchboard
