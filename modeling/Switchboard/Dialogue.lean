import Switchboard.Fault
import Switchboard.Message
import Switchboard.Plan.Event
import Switchboard.Program
import Switchboard.Route.Intent
import Switchboard.Tool.Handle

/-! What a turn asks of the world: the model, the tools, the listener and the stores. -/
namespace Switchboard

/-- A vector that stands for a text. -/
abbrev Embedding := List Float32

inductive Request where
  | complete (messages : List Message)
  | embed (texts : List String)
  | prompt (skill : String)
  | allTools
  | invoke (tool : Handle) (args : Json)
  | emit (event : Event)
  | isClosed
  | readMemory (conversation : String)
  | appendMemory (conversation : String) (message : Message)
  | getPending (conversation : String)
  | replacePending (conversation : String) (intents : List Intent)
  | clearPending (conversation : String)
  | askStreak (conversation skill : String)
  | setAskStreak (conversation skill : String) (count : Nat)
  | clearAskStreaks (conversation : String)
  | stall

/-- The answers to each request. An event is taken or not; a stalled dialogue is never answered. -/
@[reducible] def Request.Answer : Request → Type
  | complete _ => Except ModelError String
  | embed _ => Except ModelError (List Embedding)
  | prompt _ => Except TurnError String
  | allTools => Except ServerError (List Handle)
  | invoke .. => Except ServerError String
  | emit _ => Bool
  | isClosed => Bool
  | readMemory _ => Except TurnError (List Message)
  | appendMemory .. => Except TurnError Unit
  | getPending _ => Except TurnError (List Intent)
  | replacePending .. => Except TurnError Unit
  | clearPending _ => Except TurnError Unit
  | askStreak .. => Except TurnError Nat
  | setAskStreak .. => Except TurnError Unit
  | clearAskStreaks _ => Except TurnError Unit
  | stall => Empty

/-- A computation that talks with the world. -/
abbrev Dialogue := Program Request Request.Answer

/-- A request and its answer. -/
def Request.send (r : Request) : Dialogue r.Answer := Program.send r

namespace Dialogue

def complete (messages : List Message) : Dialogue (Except ModelError String) :=
  (Request.complete messages).send

/-- A completion of one user message. -/
def ask (prompt : String) : Dialogue (Except ModelError String) := complete [⟨.user, prompt⟩]

def invoke (tool : Handle) (args : Json) : Dialogue (Except ServerError String) :=
  (Request.invoke tool args).send

def emit (event : Event) : Dialogue Bool := (Request.emit event).send

def isClosed : Dialogue Bool := Request.isClosed.send

/-- A dialogue that never ends. -/
def stall {α : Type} : Dialogue α := Program.ask Request.stall nofun

end Dialogue
end Switchboard
