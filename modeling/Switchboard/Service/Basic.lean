import Switchboard.Scripted.World
import Switchboard.Service.Health
import Switchboard.Turn.Basic

/-! What an agent does for its users and its operators. -/
namespace Switchboard.Service
open Scripted (Act Halt World)
open Scripted.World (hold onPool)

/-- A new listener, which may leave when so many calls of the model have begun. -/
def listen (leavesAtCall : Option Nat) : Act Unit :=
  modify fun w => { w with heard := [], listening := true, leavesAtCall }

/-- Runs a turn for the listener there is. A service that was shut down turns it away. -/
def runTurn (a : Agent) (conversation message : String) : Act Unit := do
  if (← get).closed then hold (Agent.closeTurn (.error .cancelled))
  else hold (a.turn conversation message)

/-- The events of a turn. -/
def turn (a : Agent) (conversation message : String) : Act (List Event) := do
  listen none
  runTurn a conversation message
  return (← get).events

/-- The events of a turn whose listener leaves when the turn begins its call `n` of the model. -/
def droppedTurn (a : Agent) (conversation message : String) (n : Nat) : Act (List Event) := do
  listen (some ((← get).callsBegun + n))
  runTurn a conversation message
  return (← get).events

/-- Turns away what comes later and closes all sessions. -/
def shutdown : Act Unit := do
  modify fun w => { w with closed := true }
  onPool Pool.shutdown

/-- Lets an action go on until a moment; none if it was not finished then. -/
def interruptedAt (moment : Nat) (act : Act α) : Act (Option α) := do
  let stopAt (deadline : Option Nat) : Act Unit :=
    modify fun w => { w with clock := { w.clock with deadline } }
  stopAt (some moment)
  let result ← tryCatch (some <$> act) fun
    | .interrupted => pure none
    | .hang => throw .hang
  stopAt none
  return result

/-- The events of a turn during which the service is shut down after so many seconds. A turn that is
not finished then is cancelled. -/
def turnThenShutdown (a : Agent) (conversation message : String) (after : Nat) :
    Act (List Event) := do
  listen none
  if after = 0 then
    shutdown
    runTurn a conversation message
  else
    let moment := (← get).clock.now + after
    let result ← if (← get).closed then pure none
      else interruptedAt moment (hold (a.runTurn conversation message))
    hold (Agent.closeTurn (result.getD (.error .cancelled)))
    modify fun w => { w with clock := { w.clock with now := max w.clock.now moment } }
    shutdown
  return (← get).events

/-- Connects one server anew, or all of them, and tells which are connected then. -/
def reconnect (server : Option String) : Act (List (String × Bool)) :=
  match server with
  | some name => return [(name, ← onPool (·.reconnect name))]
  | none => onPool Pool.reconnectAll

def tools : Act (Except ServerError (List Handle)) := onPool Pool.allTools

/-- A report on the service. Servers that were lost are connected anew on the way, as far as they can
be. -/
def health (a : Agent) : Act Health := do
  let names := match ← tools with
    | .ok ts => ts.map (·.name)
    | .error _ => []
  let w ← get
  return ⟨described a.catalog, a.catalog.fallback, serverHealth w.pool w.table, names, w.usage⟩

end Switchboard.Service
