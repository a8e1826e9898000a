import Switchboard.Json.Value

/-! What a turn tells its listener while it goes on. -/
namespace Switchboard

inductive Event where
  | planning (message : String)
  | plan (steps : List String)
  | skillStart (current total : Nat) (skill subTask : String)
  | actionStart (step total : Nat) (description : String)
  | actionDone (step total : Nat) (description result : String)
  | observe (step : Nat) (text : String)
  | replan (reason : String) (steps : List String)
  | result (content : String)
  | error (message : String)
  | done
deriving DecidableEq, Repr

namespace Event

def kind : Event → String
  | planning .. => "planning"
  | plan .. => "plan"
  | skillStart .. => "skill_start"
  | actionStart .. => "action_start"
  | actionDone .. => "action_done"
  | observe .. => "observe"
  | replan .. => "replan"
  | result .. => "result"
  | error .. => "error"
  | done => "done"

private def fields : Event → List (String × Json)
  | planning m => [("message", .str m)]
  | plan steps => [("steps", .arr (steps.map .str))]
  | skillStart c t s k =>
    [("current", .nat c), ("total", .nat t), ("skill", .str s), ("sub_task", .str k)]
  | actionStart s t d => [("step", .nat s), ("total", .nat t), ("description", .str d)]
  | actionDone s t d r =>
    [("step", .nat s), ("total", .nat t), ("description", .str d), ("result", .str r)]
  | observe s t => [("step", .nat s), ("text", .str t)]
  | replan r steps => [("reason", .str r), ("steps", .arr (steps.map .str))]
  | result c => [("content", .str c)]
  | error m => [("message", .str m)]
  | done => []

/-- An object tagged by its kind. -/
def toJson (e : Event) : Json := Json.object (("type", .str e.kind) :: e.fields)

end Event
end Switchboard
