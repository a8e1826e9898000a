import Mathlib.Data.List.Infix
import Switchboard.Proofs.FirstItems
import Switchboard.Proofs.ToolCalls

/-! What is said in a step, message for message, and what its result and its errors come from. -/
namespace Switchboard

namespace Handle

/-- The bound tools that count for the name in a call: those of just this name, and only if there
are none those with this short name. -/
def CountsIn (bound : List Handle) (name : String) : Handle → Prop :=
  Preferred (·.name = name) (·.short = name) bound

variable {bound : List Handle} {name : String} {tool : Handle}

end Handle

namespace Engine

/-- One round of a step: a reply that calls a tool, and the tool that was called with its answer;
none if no bound tool was meant. -/
structure Round where
  reply : String
  call : ToolCall
  outcome : Option (Handle × Except ServerError String)

namespace Round

/-- The reply is read as the call, and the call is made to the bound tool that it means. Only if
there is no such tool no call is made. -/
structure Valid (bound : List Handle) (r : Round) : Prop where
  read : ToolCall.parse? r.reply = some r.call
  called : ∀ tool answer, r.outcome = some (tool, answer) →
    FirstWith (Handle.CountsIn bound r.call.tool) bound tool
  missed : r.outcome = none → ∀ tool ∈ bound, tool.name ≠ r.call.tool ∧ tool.short ≠ r.call.tool

/-- What the model is told of the call: the result or the error, or else which tools there are. -/
def told (bound : List Handle) (r : Round) : String :=
  match r.outcome with
  | some (_, .ok out) => s!"工具 {r.call.tool} 返回：\n{out}"
  | some (_, .error e) => s!"工具 {r.call.tool} 调用失败：{e.message}"
  | none =>
    let names := if bound.isEmpty then "无" else ", ".intercalate (bound.map (·.name))
    s!"工具 {r.call.tool} 不可用。可用工具：{names}"

def exchanges (messages : List Message) (r : Round) : Trace :=
  ⟨.complete messages, .ok r.reply⟩ ::
    r.outcome.toList.map fun o => ⟨.invoke o.1 r.call.args, o.2⟩

end Round

/-- All that was said after some rounds: to what was said before them each round adds its reply and
what the model was told. -/
def conversation (bound : List Handle) (start : List Message) (rounds : List Round) :
    List Message :=
  start ++ rounds.flatMap fun r => [⟨.assistant, r.reply⟩, ⟨.user, r.told bound⟩]

/-- The exchanges of a step that ends with such a reply after these rounds. Each time the model is
asked with all that was said before. -/
def transcript (bound : List Handle) (start : List Message) (rounds : List Round)
    (last : Except ModelError String) : Trace :=
  (rounds.inits.zip rounds).flatMap (fun r => r.2.exchanges (conversation bound start r.1)) ++
    [⟨.complete (conversation bound start rounds), last⟩]

variable {bound : List Handle} {maxRounds patience calls : Nat} {start : List Message}
  {rounds : List Round} {last : Except ModelError String} {t : Trace}
  {out : Except ModelError StepOutput} {r : Round}

/-- What became of a step that was given these exchanges and has this result: the rounds that it
went through and the reply that it ended with. -/
structure Account (bound : List Handle) (maxRounds : Nat) (start : List Message) (t : Trace)
    (result : StepOutput) (rounds : List Round) (last : String) : Prop where
  valid : ∀ r ∈ rounds, r.Valid bound
  course : t = transcript bound start rounds (.ok last)
  asked : t.completions.map (·.1) = rounds.inits.map (conversation bound start)
  counted : result.toolCalls = t.calls.length
  limited : t.calls.length ≤ maxRounds
  text : result.text = Text.trim last
  ended : ToolCall.parse? last = none ∨ t.calls.length = maxRounds

end Engine
end Switchboard
