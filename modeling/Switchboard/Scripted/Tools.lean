import Switchboard.Dict
import Switchboard.Fault
import Switchboard.Scripted.Clock
import Switchboard.Tool.Handle

/-! Tools without servers: a list of them, and what calls return. -/
namespace Switchboard.Scripted

structure Tools where
  handles : List Handle := []
  error : Option ServerError := none
  replies : Dict (List (Except ServerError String)) := []
  /-- The calls made, with their arguments. -/
  invoked : List (String × Json) := []

namespace Tools

def all (t : Tools) : Except ServerError (List Handle) :=
  match t.error with
  | some e => .error e
  | none => .ok t.handles

/-- A tool without prepared answers is not connected. -/
def invoke (tool : Handle) (args : Json) (t : Tools) : Except ServerError String × Tools :=
  let t := { t with invoked := t.invoked ++ [(tool.name, args)] }
  match (t.replies.get? tool.name).bind next? with
  | some (a, left) => (a, { t with replies := t.replies.put tool.name left })
  | none => (.error (.notConnected tool.server), t)

end Tools
end Switchboard.Scripted
