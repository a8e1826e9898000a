import Switchboard.Proofs.Oracles
import Switchboard.Proofs.ToolCalls

/-! How often a step asks the model. Calls of bound tools are counted against the limit; calls of
tools that are not bound are not. -/
namespace Switchboard

def Exchange.misses (bound : List Handle) : Exchange → Bool
  | ⟨.complete _, .ok reply⟩ =>
    (ToolCall.parse? reply).any fun call => (Handle.called? call.tool bound).isNone
  | _ => false

def Trace.misses (bound : List Handle) (t : Trace) : Nat := t.countP (·.misses bound)

namespace Engine

variable {bound : List Handle} {maxRounds patience calls : Nat} {messages : List Message}
  {t : Trace} {left : Dialogue (Except ModelError StepOutput)}

/-- How far a step has come that has the patience for so many replies and has called so many tools:
to its result, to a request that is not yet answered, or to where its patience is at an end. -/
inductive Talking (bound : List Handle) (maxRounds : Nat) :
    (patience calls : Nat) → Trace → Dialogue (Except ModelError StepOutput) → Prop where
  | stalled (calls : Nat) (next : Empty → Dialogue (Except ModelError StepOutput)) :
    Talking bound maxRounds 0 calls [] (Program.ask Request.stall next)
  | waiting (patience calls : Nat) (messages : List Message)
    (next : Except ModelError String → Dialogue (Except ModelError StepOutput)) :
    Talking bound maxRounds (patience + 1) calls [] (Program.ask (Request.complete messages) next)
  | ended (patience calls : Nat) (messages : List Message) (reply : Except ModelError String)
    (out : Except ModelError StepOutput) :
    Talking bound maxRounds (patience + 1) calls [⟨.complete messages, reply⟩] (.done out)
  | calling {calls : Nat} {reply : String} {call : ToolCall} {tool : Handle} (patience : Nat)
    (messages : List Message)
    (next : Except ServerError String → Dialogue (Except ModelError StepOutput)) :
    calls < maxRounds → ToolCall.parse? reply = some call →
    Handle.called? call.tool bound = some tool →
    Talking bound maxRounds (patience + 1) calls [⟨.complete messages, .ok reply⟩]
      (Program.ask (Request.invoke tool call.args) next)
  | called {patience calls : Nat} {reply : String} {call : ToolCall} {tool : Handle} {t : Trace}
    {left : Dialogue (Except ModelError StepOutput)} (messages : List Message)
    (answer : Except ServerError String) : calls < maxRounds →
    ToolCall.parse? reply = some call → Handle.called? call.tool bound = some tool →
    Talking bound maxRounds patience (calls + 1) t left →
    Talking bound maxRounds (patience + 1) calls
      (⟨.complete messages, .ok reply⟩ :: ⟨.invoke tool call.args, answer⟩ :: t) left
  | missed {patience calls : Nat} {reply : String} {call : ToolCall} {t : Trace}
    {left : Dialogue (Except ModelError StepOutput)} (messages : List Message) :
    ToolCall.parse? reply = some call → Handle.called? call.tool bound = none →
    Talking bound maxRounds patience calls t left →
    Talking bound maxRounds (patience + 1) calls (⟨.complete messages, .ok reply⟩ :: t) left

theorem talking_of_after
    (h : (stepFrom bound maxRounds patience calls messages).After t left) :
    Talking bound maxRounds patience calls t left := by
  induction patience generalizing calls messages t with
  | zero =>
    rcases Program.after_ask.mp h with ⟨rfl, rfl⟩ | ⟨x, -⟩
    · exact .stalled calls _
    · exact x.elim
  | succ patience ih =>
    rcases Program.after_ask.mp h with ⟨rfl, rfl⟩ | ⟨reply, t, rfl, hreply⟩
    · exact .waiting patience calls messages _
    cases reply with
    | error err =>
      obtain ⟨rfl, rfl⟩ := Program.after_done.mp hreply
      exact .ended ..
    | ok reply =>
      dsimp only [Program.bind] at hreply
      split at hreply
      next =>
        obtain ⟨rfl, rfl⟩ := Program.after_done.mp hreply
        exact .ended ..
      next hrounds =>
        have hlt := Nat.lt_of_not_le hrounds
        split at hreply
        next =>
          obtain ⟨rfl, rfl⟩ := Program.after_done.mp hreply
          exact .ended ..
        next call hcall =>
          split at hreply
          next tool htool =>
            rcases Program.after_ask.mp hreply with ⟨rfl, rfl⟩ | ⟨answer, t, rfl, hrest⟩
            · exact .calling patience messages _ hlt hcall htool
            · exact .called messages answer hlt hcall htool (ih hrest)
          next hnone => exact .missed messages hcall hnone (ih hreply)

theorem misses_reply {reply : String} {call : ToolCall}
    (hcall : ToolCall.parse? reply = some call) (messages : List Message) (t : Trace) :
    Trace.misses bound (⟨.complete messages, .ok reply⟩ :: t) =
      t.misses bound + if (Handle.called? call.tool bound).isNone then 1 else 0 := by
  have hmisses : Exchange.misses bound ⟨.complete messages, .ok reply⟩ =
      (Handle.called? call.tool bound).isNone := by
    rw [Exchange.misses, hcall, Option.any_some]
  rw [Trace.misses, List.countP_cons, hmisses]
  rfl

/-- Each reply but the result of the step is a call that counts or one that misses. -/
theorem completions_of_talking (h : Talking bound maxRounds patience calls t left) :
    t.completions.length ≤
      maxRounds - calls + t.misses bound + if left.value?.isSome then 1 else 0 := by
  induction h with
  | stalled | waiting => exact Nat.zero_le _
  | ended => exact Nat.le_add_left ..
  | @calling calls reply call tool patience messages next hlt hcall htool =>
    rw [misses_reply hcall, htool]
    change 0 + 1 ≤ maxRounds - calls + (0 + 0) + 0
    omega
  | @called patience calls reply call tool t left messages answer hlt hcall htool _ ih =>
    rw [misses_reply hcall, htool]
    change t.completions.length + 1 ≤ maxRounds - calls + (t.misses bound + 0) + _
    omega
  | @missed patience calls reply call t left messages hcall hnone _ ih =>
    rw [misses_reply hcall, hnone]
    change t.completions.length + 1 ≤ maxRounds - calls + (t.misses bound + 1) + _
    omega

/-- No more tools are called than the limit allows. -/
theorem calls_of_talking (h : Talking bound maxRounds patience calls t left) :
    t.calls.length ≤ maxRounds - calls := by
  induction h with
  | stalled | waiting | ended | calling => exact Nat.zero_le _
  | @called patience calls reply call tool t left messages answer hlt _ _ _ ih =>
    change t.calls.length + 1 ≤ maxRounds - calls
    omega
  | missed _ _ _ _ ih => exact ih

/-- A step stalls once it has waited for as many replies as it has the patience for. -/
theorem completions_of_stalled {next : Empty → Dialogue (Except ModelError StepOutput)}
    (h : Talking bound maxRounds patience calls t (Program.ask Request.stall next)) :
    t.completions.length = patience := by
  generalize hleft :
    (Program.ask Request.stall next : Dialogue (Except ModelError StepOutput)) = left at h
  induction h with
  | stalled => rfl
  | waiting | ended | calling => cases hleft
  | called _ _ _ _ _ _ ih | missed _ _ _ _ ih => exact congrArg (· + 1) (ih hleft)

variable {system user : String} {w : Oracle} {past : Trace} {misses : Nat}

/-- However far a step has come, the model was asked once more at most than there were calls that
count and calls that miss. -/
theorem completions_of_step {left : Dialogue (Except ModelError StepOutput)}
    (h : (step patience bound maxRounds system user).After t left) :
    t.completions.length ≤ maxRounds + 1 + t.misses bound ∧ t.calls.length ≤ maxRounds := by
  have htalking := talking_of_after h
  have hasked := completions_of_talking htalking
  have hcalled := calls_of_talking htalking
  split at hasked <;> omega

/-- A step comes to its result, with a bounded number of replies, if there is a bound to the calls
of tools that are not bound. Then the model is asked once for each such call, once for each call that
counts, and once for the result. -/
theorem step_rounds (hw : w.Answers)
    (hmisses : ∀ (patience : Nat) (t : Trace) (left : Dialogue (Except ModelError StepOutput)),
      (step patience bound maxRounds system user).After t left → w.Gives past t →
      t.misses bound ≤ misses) :
    ∃ (t : Trace) (out : Except ModelError StepOutput), w.Gives past t ∧
      (∀ patience, t.completions.length ≤ patience →
        (step patience bound maxRounds system user).Run t out) ∧
      t.completions.length ≤ maxRounds + 1 + t.misses bound ∧ t.misses bound ≤ misses ∧
      t.calls.length ≤ maxRounds := by
  rcases hw.run_or_stall (step (maxRounds + misses + 2) bound maxRounds system user) past with
    ⟨t, out, hrun, hg⟩ | ⟨t, next, hafter, hg⟩
  · obtain ⟨hasked, hcalled⟩ := completions_of_step hrun
    refine ⟨t, out, hg, fun patience hpatience => ?_, hasked, hmisses _ t _ hrun hg, hcalled⟩
    exact run_of_talk (talk_of_run hrun) hpatience
  · have hstalled := completions_of_stalled (talking_of_after hafter)
    have hasked := (completions_of_step hafter).1
    have hfew := hmisses _ t _ hafter hg
    omega

/-- Such a world: its model calls a tool that is not bound in its first reply, and no tool after
that. -/
def lateAnswer : Oracle
  | [], .complete _ => some (.ok refundCall)
  | past, r => Oracle.saying "晴" past r

/-- So the model is asked twice. -/
theorem step_rounds_late : lateAnswer.Answers ∧
    (∀ (patience : Nat) (t : Trace) (left : Dialogue (Except ModelError StepOutput)),
      (step patience [] 1 "s" "go").After t left → lateAnswer.Gives [] t → t.misses [] ≤ 1) ∧
    ∃ (t : Trace) (out : Except ModelError StepOutput), lateAnswer.Gives [] t ∧
      (∀ patience, t.completions.length ≤ patience → (step patience [] 1 "s" "go").Run t out) ∧
      t.completions.length ≤ 1 + 1 + t.misses [] ∧ t.misses [] ≤ 1 ∧ t.calls.length ≤ 1 := by
  have hw : lateAnswer.Answers := by
    intro past r hr
    cases past <;> cases r <;> first | rfl | exact absurd rfl hr
  have hmisses : ∀ (patience : Nat) (t : Trace)
      (left : Dialogue (Except ModelError StepOutput)),
      (step patience [] 1 "s" "go").After t left → lateAnswer.Gives [] t → t.misses [] ≤ 1 := by
    intro patience t left hafter hg
    cases talking_of_after hafter with
    | stalled | waiting => exact Nat.zero_le _
    | ended => exact List.countP_le_length
    | calling _ _ _ _ _ htool | called _ _ _ _ htool => cases htool
    | missed messages hcall _ hrest =>
      obtain ⟨-, hrest'⟩ := Oracle.gives_cons.mp hg
      cases hrest with
      | stalled | waiting => exact List.countP_le_length
      | calling _ _ _ _ _ htool | called _ _ _ _ htool => cases htool
      | ended _ _ _ reply =>
        obtain ⟨hreply, -⟩ := Oracle.gives_cons.mp hrest'
        obtain rfl : .ok "晴" = reply := Option.some.inj hreply
        rw [misses_reply hcall]
        exact Nat.le_refl _
      | missed _ hcall' =>
        obtain ⟨hreply, -⟩ := Oracle.gives_cons.mp hrest'
        cases hreply
        cases hcall'
  exact ⟨hw, hmisses, step_rounds hw hmisses⟩

/-- Where the model calls nothing but a tool that is not bound, a step has no end. -/
theorem endless_of_misses {reply : String} {call : ToolCall} {messages : List Message}
    (hw : ∀ past messages, w past (.complete messages) = some (.ok reply))
    (hcall : ToolCall.parse? reply = some call)
    (hnone : Handle.called? call.tool bound = none) (hcalls : calls < maxRounds) :
    w.Endless past (stepFrom bound maxRounds patience calls messages) := by
  intro t out hg hrun
  have htalk := talk_of_run hrun
  clear hrun
  induction htalk generalizing past with
  | failed err =>
    cases (hw ..).symm.trans hg.1
  | answered hanswered =>
    cases (hw ..).symm.trans hg.1
    rcases hanswered with hrounds | hwords
    · exact Nat.not_lt_of_le hrounds hcalls
    · rw [hcall] at hwords
      cases hwords
  | called _ hcall' htool =>
    cases (hw ..).symm.trans hg.1
    obtain rfl := Option.some.inj (hcall.symm.trans hcall')
    rw [hnone] at htool
    cases htool
  | missed _ _ _ _ ih => exact ih hcalls hg.2

/-- A step that may call one tool, and has none: the model is asked four times, and would be asked
without end. -/
theorem step_overruns :
    (∃ (t : Trace) (out : Except ModelError StepOutput),
      (step 4 [] 1 "s" "go").Run t out ∧ t.completions.length = 4) ∧
    ∀ (patience : Nat) (t : Trace) (out : Except ModelError StepOutput),
      (Oracle.saying refundCall).Gives [] t → ¬ (step patience [] 1 "s" "go").Run t out := by
  constructor
  · have hmiss {messages : List Message} {t : Trace} {out : Except ModelError StepOutput}
        (h : Talk [] 1 0 (messages ++ exchange refundCall (unavailable "q" [])) t out) :
        Talk [] 1 0 messages (⟨.complete messages, .ok refundCall⟩ :: t) out :=
      .missed Nat.one_pos parse?_refundCall rfl h
    have hdone (messages : List Message) : Talk [] 1 0 messages
        [⟨.complete messages, .ok "done"⟩] (.ok ⟨Text.trim "done", 0⟩) := .answered (.inr rfl)
    exact ⟨_, _, run_of_talk (hmiss (hmiss (hmiss (hdone _)))) (Nat.le_refl 4), rfl⟩
  · intro patience t out hg hrun
    exact endless_of_misses (fun _ _ => rfl) parse?_refundCall rfl Nat.one_pos t out hg hrun

end Engine
end Switchboard
