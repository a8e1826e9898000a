import Switchboard.Dialogue
import Switchboard.Tool.Call
import Switchboard.Tool.Handle

/-! One step: the model is asked, its tool calls are made and reported back, until it answers in
words. -/
namespace Switchboard.Engine

structure StepOutput where
  text : String
  toolCalls : Nat
deriving DecidableEq, Repr

/-- What the model is told of a call. -/
def observation (name : String) : Except ServerError String → String
  | .ok out => s!"工具 {name} 返回：\n{out}"
  | .error e => s!"工具 {name} 调用失败：{e.message}"

/-- What the model is told of a tool that is not bound. -/
def unavailable (name : String) (bound : List Handle) : String :=
  let names := if bound.isEmpty then "无" else Text.joined ", " (bound.map (·.name))
  s!"工具 {name} 不可用。可用工具：{names}"

/-- The reply and what came of it, as they follow in the conversation. -/
def exchange (reply told : String) : List Message := [⟨.assistant, reply⟩, ⟨.user, told⟩]

/-- Goes on from a conversation in which `calls` tools were called. After `maxRounds` calls, or
without a call in it, a reply is the result. A step that needs more than `patience` replies counts
as endless. -/
def stepFrom (bound : List Handle) (maxRounds : Nat) :
    (patience : Nat) → (calls : Nat) → List Message → Dialogue (Except ModelError StepOutput)
  | 0, _, _ => Dialogue.stall
  | patience + 1, calls, messages => do
    match ← Dialogue.complete messages with
    | .error e => return .error e
    | .ok reply =>
      if maxRounds ≤ calls then return .ok ⟨Text.trim reply, calls⟩
      match ToolCall.parse? reply with
      | none => return .ok ⟨Text.trim reply, calls⟩
      | some call =>
        match Handle.called? call.tool bound with
        | some tool =>
          let out ← Dialogue.invoke tool call.args
          stepFrom bound maxRounds patience (calls + 1)
            (messages ++ exchange reply (observation call.tool out))
        | none =>
          stepFrom bound maxRounds patience calls
            (messages ++ exchange reply (unavailable call.tool bound))

/-- Executes a step; only a fault of the model ends it early. -/
def step (patience : Nat) (bound : List Handle) (maxRounds : Nat) (system user : String) :
    Dialogue (Except ModelError StepOutput) :=
  stepFrom bound maxRounds patience 0 [⟨.system, system⟩, ⟨.user, user⟩]

end Switchboard.Engine
