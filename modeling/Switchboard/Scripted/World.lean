import Switchboard.Model.Chat
import Switchboard.Scripted.Embedder
import Switchboard.Scripted.Endpoints
import Switchboard.Scripted.HttpServer
import Switchboard.Scripted.Model
import Switchboard.Scripted.Tools
import Switchboard.Server.HttpSession
import Switchboard.Skill.Folder
import Switchboard.Skill.Prompts
import Switchboard.Store.Basic

/-! A world for dialogues to talk with: everything in it answers as prepared, and keeps account of
what it was asked. -/
namespace Switchboard.Scripted

inductive ModelSource where
  | rules
  | http (access : Model.Access)

inductive EmbedderSource where
  | keys (e : Embedder)
  | http (access : Model.Access)

inductive ToolSource where
  /-- Tools without servers. -/
  | direct
  /-- Servers with prepared answers. -/
  | endpoints
  /-- Servers that are reached over HTTP. -/
  | http
deriving DecidableEq

structure World where
  clock : Clock := {}
  /-- The events the listener took, last one first. -/
  heard : List Event := []
  listening : Bool := true
  /-- The listener leaves when so many calls of the model have begun. -/
  leavesAtCall : Option Nat := none
  callsBegun : Nat := 0
  modelSource : ModelSource := .rules
  model : Model := {}
  /-- How long the model takes for prompts with certain words. -/
  delays : List (String × Nat) := []
  callLimit : Option Nat := none
  usage : Model.Usage := {}
  embedder : Option EmbedderSource := none
  toolSource : ToolSource := .direct
  tools : Tools := {}
  pool : Pool := ⟨[], 5, 30⟩
  table : Pool.Table := []
  endpoints : Endpoints := {}
  servers : HttpServers := []
  httpSessions : List HttpSession := []
  audits : List Pool.Audit := []
  catalog : Catalog := ⟨[], ""⟩
  files : Files := []
  prompts : Catalog.Prompts := []
  stores : Stores := .inLists 50
  /-- The operations of the stores that fail. -/
  broken : List String := []
  /-- Whether the service was shut down. -/
  closed : Bool := false

/-- What a world does; it may come to a halt. -/
abbrev Act := ExceptT Halt (StateM World)

namespace World

def events (w : World) : List Event := w.heard.reverse

private def onClock (f : Clock → Except Halt Unit × Clock) : Act Unit := do
  let (r, c) := f (← get).clock
  modify fun w => { w with clock := c }
  liftM r

def sleep (seconds : Nat) : Act Unit := onClock (Clock.sleep seconds)

def wait (d : Delay) : Act Unit :=
  match d with
  | some n => sleep n
  | none => onClock Clock.sleepForever

/-- Waits for an answer, but no longer than a limit; none if the time was up. -/
def within (limit : Nat) (d : Delay) (answer : Act α) : Act (Option α) := do
  if d.within limit then
    wait d
    return some (← answer)
  else
    sleep limit
    return none

def onHttp (e : Http.Exchange α) : Act α := do
  let (a, servers) := (HttpServers.run e).run (← get).servers
  modify fun w => { w with servers }
  return a

/-- Counts a call of the model, at which the listener may leave. -/
def beginCall : Act Unit := modify fun w =>
  let n := w.callsBegun + 1
  { w with callsBegun := n, listening := w.listening && w.leavesAtCall ≠ some n }

private def answerByRules (messages : List Message) : Act (Except ModelError String) := do
  let (a, model) := (← get).model.complete messages
  modify fun w => { w with model }
  return a

def complete (messages : List Message) : Act (Except ModelError String) := do
  beginCall
  let w ← get
  match w.modelSource with
  | .http access =>
    let (a, usage) ← onHttp (access.complete messages w.usage)
    modify fun w => { w with usage }
    return a
  | .rules =>
    let prompt := Model.promptOf messages
    let delay := match w.delays.find? fun d => Text.contains d.1 prompt with
      | some d => d.2
      | none => 0
    match w.callLimit with
    | none =>
      sleep delay
      answerByRules messages
    | some limit =>
      match ← within limit (some delay) (answerByRules messages) with
      | some a => return a
      | none => return .error (.timeout limit)

def embed (texts : List String) : Act (Except ModelError (List Embedding)) := do
  match (← get).embedder with
  | none => return .error (.request "no embedder")
  | some (.keys e) => return e.embed texts
  | some (.http access) => onHttp (access.embed texts)

private def onEndpoints (f : Endpoints → α × Endpoints) : Act α := do
  let (a, endpoints) := f (← get).endpoints
  modify fun w => { w with endpoints }
  return a

/-- A session of the pool is known by its number among the sessions over HTTP. -/
private def onSession (s : Pool.Session)
    (f : HttpSession → Http.Exchange (HttpSession.After α)) : Act (Except ServerError α) := do
  match (← get).httpSessions[s.number - 1]? with
  | none => return .error (.notConnected s.url)
  | some h =>
    let (a, h) ← onHttp (f h)
    modify fun w => { w with httpSessions := w.httpSessions.set (s.number - 1) h }
    return a

/-- Opens a session that is known by its number from then on. -/
private def connectHttp (url : String) : Act (Except ServerError Pool.Session) := do
  let (a, h) ← onHttp (HttpSession.connect url)
  match a with
  | .error e => return .error e
  | .ok () =>
    modify fun w => { w with httpSessions := w.httpSessions ++ [h] }
    return .ok ⟨url, (← get).httpSessions.length⟩

private def connectPrepared (url : String) (limit : Nat) : Act (Pool.Timed Pool.Session) := do
  let t ← onEndpoints (Endpoints.connect url)
  within limit t.delay do
    match t.result with
    | .error e => return .error e
    | .ok () => return .ok (← onEndpoints (Endpoints.opened url))

/-- Does the one over HTTP, the other with prepared answers. -/
private def overNetwork (http prepared : Act α) : Act α := do
  if (← get).toolSource = .http then http else prepared

/-- A prepared answer that is waited for no longer than a limit. -/
private def prepared (limit : Nat) (f : Endpoints → Timed α × Endpoints) : Act (Pool.Timed α) := do
  let t ← onEndpoints f
  within limit t.delay (return t.result)

/-- Answers the requests of a pool. -/
def answerPool : (r : Pool.Request) → Act r.Answer
  | .connect url limit =>
    overNetwork (return some (← connectHttp url)) (connectPrepared url limit)
  | .list s limit =>
    overNetwork (return some (← onSession s HttpSession.listTools)) (prepared limit (Endpoints.list s))
  | .call s tool args limit =>
    overNetwork (return some (← onSession s (HttpSession.callTool tool args)))
      (prepared limit (Endpoints.call s tool args))
  | .close s => overNetwork (onSession s HttpSession.close) do
      let t ← onEndpoints (Endpoints.close s)
      wait t.delay
      return t.result
  | .readTable => return (← get).table
  | .setEntry name c => modify fun w => { w with table := w.table.put name c }
  | .audit a => modify fun w => { w with audits := w.audits ++ [a] }

/-- Lets the pool work. -/
def onPool (work : Pool → Pool.Work α) : Act α := do
  (work (← get).pool).interpret answerPool

private def store (name : String) (act : Act α) : Act (Except TurnError α) := do
  if (← get).broken.contains name then return .error (.store s!"{name} failed")
  else return .ok (← act)

private def readStores (f : Stores → α) : Act α := return f (← get).stores

private def changeStores (f : Stores → Stores) : Act Unit :=
  modify fun w => { w with stores := f w.stores }

private def prompt (skill : String) : Act (Except TurnError String) := do
  let w ← get
  let (a, prompts) := w.catalog.prompt w.files.read skill w.prompts
  modify fun w => { w with prompts }
  return a

/-- Answers the requests of a dialogue. -/
def answer : (r : Request) → Act r.Answer
  | .complete messages => complete messages
  | .embed texts => embed texts
  | .prompt skill => prompt skill
  | .allTools => do
    match (← get).toolSource with
    | .direct => return (← get).tools.all
    | _ => onPool Pool.allTools
  | .invoke tool args => do
    match (← get).toolSource with
    | .direct =>
      let (a, tools) := (← get).tools.invoke tool args
      modify fun w => { w with tools }
      return a
    | _ => onPool (·.call tool args)
  | .emit event => do
    if (← get).listening then
      modify fun w => { w with heard := event :: w.heard }
      return true
    else return false
  | .isClosed => return !(← get).listening
  | .readMemory c => store "read" (readStores (Stores.readMessages c))
  | .appendMemory c m => store "append" (changeStores (Stores.appendMessage c m))
  | .getPending c => store "get" (readStores (Stores.getIntents c))
  | .replacePending c is => store "replace" (changeStores (Stores.replaceIntents c is))
  | .clearPending c => store "clear" (changeStores (Stores.clearIntents c))
  | .askStreak c s => store "ask_streak" (readStores (Stores.streak c s))
  | .setAskStreak c s n => store "set_ask_streak" (changeStores (Stores.setStreak c s n))
  | .clearAskStreaks c => store "clear_ask_streaks" (changeStores (Stores.clearStreaks c))
  | .stall => throw .hang

/-- Holds a dialogue with the world. -/
def hold (d : Dialogue α) : Act α := d.interpret answer

end World
end Switchboard.Scripted
