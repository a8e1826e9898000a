import Switchboard.Batch.Outcome
import Switchboard.Route.Router
import Switchboard.Skill.Index

/-! Whole turns: from a message to its events and its reply. -/
namespace Switchboard

/-- What a turn needs to know beside what it asks of the world. -/
structure Agent where
  catalog : Catalog
  engine : Engine
  window : Route.Window
  index : Skill.Index
  hasEmbedder : Bool

namespace Agent

def startNotice : String := "🤔 正在理解您的问题..."

def closingNotice : String := "服务正在关闭，请稍后重试"

/-- Takes the pending intents out of the store; if that fails there are none. -/
def popPending (conversation : String) : Dialogue (List Intent) := do
  match ← (Request.getPending conversation).send with
  | .error _ => return []
  | .ok intents =>
    if intents.isEmpty then return []
    match ← (Request.clearPending conversation).send with
    | .error _ => return []
    | .ok () => return intents

/-- Adds to the memory of a conversation, which may fail. -/
def remember (conversation : String) (m : Message) : Dialogue Unit := do
  let _ ← (Request.appendMemory conversation m).send
  return ()

/-- Finds the intents of a message, runs them with the pending ones and remembers the exchange. -/
def runTurn (a : Agent) (conversation message : String) : Dialogue (Except TurnError Unit) := do
  if !(← Dialogue.emit (.planning startNotice)) then return .error .cancelled
  let messages := match ← (Request.readMemory conversation).send with
    | .ok ms => ms
    | .error _ => []
  let candidates ← a.index.candidates a.hasEmbedder a.catalog message
  let routed ← Route.route a.catalog a.window message messages candidates
  if ← Dialogue.isClosed then return .error .cancelled
  let pending ← popPending conversation
  remember conversation ⟨.user, message⟩
  match ← (Batch.execute a.engine a.catalog conversation (Intent.merge routed pending)).run with
  | .error e => return .error e
  | .ok outcome =>
    if let some reply := outcome.reply then remember conversation ⟨.assistant, reply⟩
    return .ok ()

/-- The last events of a turn: what went wrong, if anything, and its end. -/
def closeTurn (result : Except TurnError Unit) : Dialogue Unit := do
  match result with
  | .ok () => pure ()
  | .error .cancelled =>
    if !(← Dialogue.isClosed) then let _ ← Dialogue.emit (.error closingNotice)
  | .error e => let _ ← Dialogue.emit (.error s!"处理请求时出错: {e.message}")
  let _ ← Dialogue.emit .done

/-- A turn that nothing interrupts. -/
def turn (a : Agent) (conversation message : String) : Dialogue Unit := do
  closeTurn (← a.runTurn conversation message)

/-- The text of a turn: its last result, else its last error. -/
def textOf (events : List Event) : String :=
  let results := events.filterMap fun
    | .result c => some c
    | _ => none
  let errors := events.filterMap fun
    | .error m => some m
    | _ => none
  (results.getLast?.or errors.getLast?).getD ""

end Agent
end Switchboard
