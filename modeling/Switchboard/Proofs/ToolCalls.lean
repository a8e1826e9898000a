import Switchboard.Proofs.Completion
import Switchboard.Proofs.IntentRuns

/-! The tool calls of a run and those that its outcome counts. -/
namespace Switchboard

namespace Exchange

def call? : Exchange → Option (Handle × Json)
  | ⟨.invoke tool args, _⟩ => some (tool, args)
  | _ => none

end Exchange

def Request.CallsNone : Request → Prop
  | .invoke .. => False
  | _ => True

theorem Exchange.call?_of_callsNone {x : Exchange} (h : x.1.CallsNone) : x.call? = none := by
  obtain ⟨r, a⟩ := x
  cases r <;> first | rfl | exact absurd h id

namespace Trace

def calls (t : Trace) : List (Handle × Json) := t.filterMap Exchange.call?

/-- The step that is under way comes to nothing, since the model fails in it. -/
def breaksOff : Trace → Bool
  | ⟨.complete _, .error _⟩ :: _ => true
  | ⟨.complete _, .ok _⟩ :: t => breaksOff t
  | ⟨.invoke .., _⟩ :: t => breaksOff t
  | _ => false

/-- How many calls were made in steps that came to nothing. -/
def wasted : Trace → Nat
  | [] => 0
  | ⟨.invoke .., _⟩ :: t => wasted t + if breaksOff t then 1 else 0
  | _ :: t => wasted t

@[simp] theorem calls_append (t t' : Trace) : calls (t ++ t') = calls t ++ calls t' :=
  List.filterMap_append

@[simp] theorem calls_taken (event : Event) (t : Trace) : calls (.taken event :: t) = calls t := rfl

@[simp] theorem calls_present (t : Trace) : calls (.present :: t) = calls t := rfl

@[simp] theorem wasted_taken (event : Event) (t : Trace) :
    wasted (.taken event :: t) = wasted t := rfl

@[simp] theorem wasted_present (t : Trace) : wasted (.present :: t) = wasted t := rfl

theorem calls_of_callsNone {t : Trace} (h : ∀ x ∈ t, x.1.CallsNone) : t.calls = [] :=
  List.filterMap_eq_nil_iff.mpr fun x hx => Exchange.call?_of_callsNone (h x hx)

theorem wasted_of_callsNone {t : Trace} (h : ∀ x ∈ t, x.1.CallsNone) (rest : Trace) :
    wasted (t ++ rest) = wasted rest := by
  induction t with
  | nil => rfl
  | cons x t ih =>
    obtain ⟨hx, ht⟩ := List.forall_mem_cons.mp h
    obtain ⟨r, a⟩ := x
    rw [List.cons_append]
    cases r <;> first | exact ih ht | exact absurd hx id

end Trace

namespace Engine
open Plan (Progress)

variable {e : Engine} {skill : Skill} {task : String} {s : State} {p p' : Progress} {t : Trace}
  {o : Outcome}

/-- The course of a step from a conversation in which so many tools were called. -/
inductive Talk (bound : List Handle) (maxRounds : Nat) :
    Nat → List Message → Trace → Except ModelError StepOutput → Prop where
  | failed {calls : Nat} {messages : List Message} (err : ModelError) :
    Talk bound maxRounds calls messages [⟨.complete messages, .error err⟩] (.error err)
  | answered {calls : Nat} {messages : List Message} {reply : String} :
    maxRounds ≤ calls ∨ ToolCall.parse? reply = none →
    Talk bound maxRounds calls messages [⟨.complete messages, .ok reply⟩]
      (.ok ⟨Text.trim reply, calls⟩)
  | called {calls : Nat} {messages : List Message} {reply : String} {call : ToolCall}
    {tool : Handle} {answer : Except ServerError String} {t : Trace}
    {out : Except ModelError StepOutput} : calls < maxRounds →
    ToolCall.parse? reply = some call → Handle.called? call.tool bound = some tool →
    Talk bound maxRounds (calls + 1)
      (messages ++ exchange reply (observation call.tool answer)) t out →
    Talk bound maxRounds calls messages
      (⟨.complete messages, .ok reply⟩ :: ⟨.invoke tool call.args, answer⟩ :: t) out
  | missed {calls : Nat} {messages : List Message} {reply : String} {call : ToolCall} {t : Trace}
    {out : Except ModelError StepOutput} : calls < maxRounds →
    ToolCall.parse? reply = some call → Handle.called? call.tool bound = none →
    Talk bound maxRounds calls
      (messages ++ exchange reply (unavailable call.tool bound)) t out →
    Talk bound maxRounds calls messages (⟨.complete messages, .ok reply⟩ :: t) out

theorem talk_of_run {bound : List Handle} {maxRounds patience calls : Nat}
    {messages : List Message} {out : Except ModelError StepOutput}
    (h : (stepFrom bound maxRounds patience calls messages).Run t out) :
    Talk bound maxRounds calls messages t out := by
  induction patience generalizing calls messages t with
  | zero =>
    obtain ⟨x, -⟩ := Program.run_ask.mp h
    exact x.elim
  | succ patience ih =>
    obtain ⟨reply, t, rfl, hreply⟩ := Program.run_send.mp h
    cases reply with
    | error err =>
      obtain ⟨rfl, rfl⟩ := Program.run_done.mp hreply
      exact .failed err
    | ok reply =>
      dsimp only at hreply
      split at hreply
      next hrounds =>
        obtain ⟨rfl, rfl⟩ := Program.run_done.mp hreply
        exact .answered (.inl hrounds)
      next hrounds =>
        have hlt := Nat.lt_of_not_le hrounds
        split at hreply
        next hwords =>
          obtain ⟨rfl, rfl⟩ := Program.run_done.mp hreply
          exact .answered (.inr hwords)
        next call hcall =>
          split at hreply
          next tool htool =>
            obtain ⟨answer, t, rfl, hrest⟩ := Program.run_send.mp hreply
            exact .called hlt hcall htool (ih hrest)
          next hnone => exact .missed hlt hcall hnone (ih hreply)

section
variable {bound : List Handle} {maxRounds calls : Nat} {messages : List Message}
  {out : Except ModelError StepOutput} {rest : Trace}

theorem run_of_talk (h : Talk bound maxRounds calls messages t out) {patience : Nat}
    (hpatience : t.completions.length ≤ patience) :
    (stepFrom bound maxRounds patience calls messages).Run t out := by
  induction h generalizing patience with
  | @failed calls messages err =>
    obtain ⟨patience, rfl⟩ := Nat.exists_eq_add_of_le' hpatience
    exact Program.run_ask.mpr ⟨.error err, [], rfl, Program.run_done.mpr ⟨rfl, rfl⟩⟩
  | @answered calls messages reply hanswered =>
    obtain ⟨patience, rfl⟩ := Nat.exists_eq_add_of_le' hpatience
    refine Program.run_send.mpr ⟨.ok reply, [], rfl, ?_⟩
    dsimp only
    split
    · exact Program.run_done.mpr ⟨rfl, rfl⟩
    next hrounds =>
      rw [hanswered.resolve_left hrounds]
      exact Program.run_done.mpr ⟨rfl, rfl⟩
  | @called calls messages reply call tool answer t out hlt hcall htool _ ih =>
    obtain ⟨patience, rfl⟩ := Nat.exists_eq_add_of_le' (Nat.le_trans (Nat.succ_pos _) hpatience)
    refine Program.run_send.mpr ⟨.ok reply, _, rfl, ?_⟩
    dsimp only
    rw [if_neg (Nat.not_le_of_lt hlt), hcall]
    dsimp only
    rw [htool]
    exact Program.run_ask.mpr ⟨answer, _, rfl, ih (Nat.le_of_succ_le_succ hpatience)⟩
  | @missed calls messages reply call t out hlt hcall hnone _ ih =>
    obtain ⟨patience, rfl⟩ := Nat.exists_eq_add_of_le' (Nat.le_trans (Nat.succ_pos _) hpatience)
    refine Program.run_send.mpr ⟨.ok reply, _, rfl, ?_⟩
    dsimp only
    rw [if_neg (Nat.not_le_of_lt hlt), hcall]
    dsimp only
    rw [hnone]
    exact ih (Nat.le_of_succ_le_succ hpatience)

/-- A step breaks off if it has no result. -/
theorem breaksOff_of_talk (h : Talk bound maxRounds calls messages t out)
    (hrest : rest.breaksOff = false) : (t ++ rest).breaksOff = !out.isOk := by
  induction h with
  | failed err => rfl
  | answered => exact hrest
  | called _ _ _ _ ih | missed _ _ _ _ ih => exact ih

/-- The calls after a step that had so many: those that its result counts, or as many as before. -/
def callsAfter {ε : Type} (calls : Nat) : Except ε StepOutput → Nat
  | .ok out => out.toolCalls
  | .error _ => calls

/-- The calls of a step are counted if it has a result, and wasted if it breaks off. -/
theorem calls_of_talk (h : Talk bound maxRounds calls messages t out)
    (hrest : rest.breaksOff = false) :
    calls + t.calls.length + rest.wasted = callsAfter calls out + (t ++ rest).wasted := by
  induction h with
  | failed | answered => rfl
  | @called calls messages reply call tool answer t out _ _ _ htalk ih =>
    have hbreaks := breaksOff_of_talk htalk hrest
    change calls + (t.calls.length + 1) + rest.wasted =
      callsAfter calls out + ((t ++ rest).wasted + if (t ++ rest).breaksOff then 1 else 0)
    rw [hbreaks]
    cases out with
    | error err =>
      change _ = calls + ((t ++ rest).wasted + 1)
      change _ = calls + 1 + (t ++ rest).wasted at ih
      omega
    | ok result =>
      change _ = result.toolCalls + ((t ++ rest).wasted + 0)
      change _ = result.toolCalls + (t ++ rest).wasted at ih
      omega
  | missed _ _ _ _ ih => exact ih

theorem calls_of_run {patience : Nat} {system user : String}
    (h : (step patience bound maxRounds system user).Run t out) (hrest : rest.breaksOff = false) :
    t.calls.length + rest.wasted = countedCalls out + (t ++ rest).wasted := by
  have hcalls := calls_of_talk (talk_of_run h) hrest
  rw [Nat.zero_add] at hcalls
  cases out <;> exact hcalls

end

/-- Only an executing stage calls tools. -/
theorem callsNone_of_step {r : Except TurnError State} (h : Step e skill task s p t r p')
    (hs : s ≠ .executing) : ∀ x ∈ t, x.1.CallsNone :=
  (transition_only_of (fun _ _ => trivial) (fun r hr => by cases r <;> trivial)
    (fun _ r hr => by cases r <;> trivial) fun hexecuting => absurd hexecuting hs).of_mem
    (transition_of_step h)

/-- The calls of a stage are those that it adds to the counted and to the wasted ones. -/
theorem calls_of_step {r : Except TurnError State} (h : Step e skill task s p t r p')
    (rest : Trace) :
    p.toolCalls + t.calls.length + rest.wasted = p'.toolCalls + (t ++ rest).wasted := by
  by_cases hs : s = .executing
  · subst hs
    cases h with
    | finished | questioned => rfl
    | @executed _ current t out _ _ hrun =>
      -- What is told of the step stands after it, so no step is under way there.
      have htold : Trace.breaksOff (Exchange.taken (.actionDone p.position.1 p.position.2 current
          (resultText out)) :: rest) = false := rfl
      have hcalls := calls_of_run hrun htold
      rw [Trace.wasted_taken] at hcalls
      rw [Trace.calls_taken, Trace.calls_append, List.cons_append, List.append_assoc,
        Trace.wasted_taken]
      change p.toolCalls + (t.calls ++ []).length + rest.wasted =
        p.toolCalls + countedCalls out + Trace.wasted (t ++ Exchange.taken _ :: rest)
      rw [List.append_nil]
      omega
  · have hcount : p'.toolCalls = p.toolCalls := by
      cases h <;> first | rfl | exact absurd rfl hs
    have hnone := callsNone_of_step h hs
    rw [hcount, Trace.calls_of_callsNone hnone, Trace.wasted_of_callsNone hnone]
    rfl

/-- The calls of a run are those that its outcome counts and those that are wasted. -/
theorem calls_of_course (h : Course e skill task s p t o) :
    p.toolCalls + t.calls.length = o.toolCalls + t.wasted := by
  induction h with
  | done p => rfl
  | @stage _ _ _ _ t t' _ _ hstep _ ih =>
    have hcalls := calls_of_step hstep t'
    rw [Trace.calls_present, Trace.calls_append, Trace.wasted_present, List.length_append]
    omega
  | @failed _ _ _ t err _ hstep =>
    have hcalls := calls_of_step hstep [.taken (failure err)]
    rw [Trace.calls_present, Trace.calls_append, Trace.wasted_present, List.length_append]
    exact hcalls

theorem calls_of_answerDirectly {answered : Except TurnError StepOutput}
    (h : (answerDirectly e skill task).Run t answered) {rest : Trace}
    (hrest : rest.breaksOff = false) :
    t.calls.length + rest.wasted = callsAfter 0 answered + (t ++ rest).wasted := by
  obtain ⟨t₁, ⟨loaded, p⟩, t₂, rfl, hload, hstep⟩ := Program.run_bind.mp h
  have hnone : ∀ x ∈ t₁, x.1.CallsNone :=
    ((preload_only skill (.start 0)).mono fun r hr => by cases r <;> trivial).of_mem hload
  rw [Trace.calls_append, Trace.calls_of_callsNone hnone, List.append_assoc,
    Trace.wasted_of_callsNone hnone, List.nil_append]
  cases loaded with
  | error err =>
    obtain ⟨rfl, rfl⟩ := Program.run_done.mp hstep
    rfl
  | ok u =>
    obtain ⟨t₂, out, t₃, rfl, hrun, hend⟩ := Program.run_bind.mp hstep
    obtain ⟨rfl, rfl⟩ := Program.run_done.mp hend
    rw [List.append_nil]
    cases out <;> exact calls_of_run hrun hrest

/-- A skill with a tool, and a call of that tool, for examples of runs. -/
def refundSkill : Skill := ⟨"refund", "", ["q"], .text "p"⟩

@[inherit_doc refundSkill]
def refundTool : Handle := ⟨"s", "q", "q", "", .null⟩

@[inherit_doc refundSkill]
def refundCall : String := "\x7b\"tool\":\"q\"\x7d"

theorem parse?_refundCall : ToolCall.parse? refundCall = some ⟨"q", .null⟩ := rfl

/-- A run that asks after its only tool call was made in a step that came to nothing. -/
theorem wasted_run : ∃ (t : Trace) (o : Outcome),
    (execute ⟨{ maxReplans := 1 }, 2⟩ refundSkill "t" 0).Run t (.ok o) ∧
      o.asking = true ∧ o.toolCalls = 0 ∧ t.calls = [(refundTool, .null)] ∧ t.wasted = 1 := by
  obtain ⟨t, o, hcourse, ho⟩ : ∃ (t : Trace) (o : Outcome),
      Course ⟨{ maxReplans := 1 }, 2⟩ refundSkill "t" .preload (.start 0) t o ∧
        o.asking = true ∧ o.toolCalls = 0 ∧ t.calls = [(refundTool, .null)] ∧ t.wasted = 1 := by
    have htalk (system user : String) :
        (step 2 [refundTool] 5 system user).Run
          [⟨.complete [⟨.system, system⟩, ⟨.user, user⟩], .ok refundCall⟩,
            ⟨.invoke refundTool .null, .ok "done"⟩,
            ⟨.complete _, .error (.request "down")⟩] (.error (.request "down")) :=
      run_of_talk (.called (by decide) parse?_refundCall rfl (.failed _)) (Nat.le_refl 2)
    refine ⟨_, _, .stage nofun (.loaded _ "p" [refundTool]
        (preload_run_listed (List.cons_ne_nil _ _) _ "p" [refundTool]))
      (.stage nofun (.planned _ (plan_run "t" _ "查"))
      (.stage nofun (.executed _ rfl rfl (htalk _ _))
      (.stage nofun
        (.rejected _ (observe_run _ "t" rfl (rfl : Text.isBlankText "REPLAN" = false)) rfl
          (by decide))
      (.stage nofun (.replanned _ _ (plan_run "t" _ "追问用户：哪里"))
      (.stage nofun (.questioned _ rfl rfl)
      (.stage nofun (.asked _ (by decide)) (.done _))))))), ?_⟩
    exact ⟨rfl, rfl, rfl, rfl⟩
  exact ⟨t, o, run_of_course hcourse, ho⟩

/-- The outcome of a run counts its tool calls but for those of the steps in which the model failed.
So a question stops the batch if the run has called no tools except in such steps. -/
theorem calls_of_execute {asks : Nat} (h : (e.execute skill task asks).Run t (.ok o)) :
    t.calls.length = o.toolCalls + t.wasted ∧ ∀ (tally : Batch.Tally) (label : String),
      (tally.add label o).stopped =
        (tally.stopped || o.asking && decide (t.calls.length = t.wasted)) := by
  have hcount : t.calls.length = o.toolCalls + t.wasted := by
    unfold execute at h
    split at h
    · have hcalls := calls_of_course (course_of_ok h)
      change 0 + t.calls.length = _ at hcalls
      omega
    · obtain ⟨t, answered, event, hanswer, rfl, hend⟩ := answered_of_runDirect h
      have hclosed : Trace.breaksOff [Exchange.present, Exchange.taken event] = false := rfl
      have hcalls := calls_of_answerDirectly hanswer hclosed
      rw [Trace.calls_append, List.length_append]
      obtain ⟨out, rfl, -, rfl⟩ | ⟨err, message, rfl, -, rfl⟩ := hend <;> exact hcalls
  refine ⟨hcount, fun tally label => ?_⟩
  have hzero : (o.toolCalls = 0) = (t.calls.length = t.wasted) := by
    rw [hcount]
    exact propext (by omega)
  rw [Batch.stopped_add]
  simp only [hzero]

theorem calls_of_execute_refund : ∃ (t : Trace) (o : Outcome),
    (execute ⟨{ maxReplans := 1 }, 2⟩ refundSkill "t" 0).Run t (.ok o) ∧
      t.calls.length = o.toolCalls + t.wasted ∧ ∀ (tally : Batch.Tally) (label : String),
        (tally.add label o).stopped =
          (tally.stopped || o.asking && decide (t.calls.length = t.wasted)) := by
  obtain ⟨t, o, hrun, -⟩ := wasted_run
  exact ⟨t, o, hrun, calls_of_execute hrun⟩

/-- Such a question stops the batch although a tool was called. -/
theorem exists_uncounted_call : ∃ (t : Trace) (o : Outcome),
    (execute ⟨{ maxReplans := 1 }, 2⟩ refundSkill "t" 0).Run t (.ok o) ∧
      t.calls = [(refundTool, .null)] ∧ o.toolCalls = 0 ∧
      ∀ (tally : Batch.Tally) (label : String), (tally.add label o).stopped = true := by
  obtain ⟨t, o, hrun, hasking, hnone, hcalls, -⟩ := wasted_run
  refine ⟨t, o, hrun, hcalls, hnone, fun tally label => ?_⟩
  rw [Batch.stopped_add, hasking, hnone]
  exact Bool.or_true _

end Engine
end Switchboard
