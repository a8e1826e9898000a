import Switchboard.Dict
import Switchboard.Fault
import Switchboard.Program
import Switchboard.Tool.Handle

/-! The connections to the tool servers: one for each configured server, made, lost and made again. -/
namespace Switchboard

structure ServerConfig where
  name : String
  url : String
deriving DecidableEq, Repr

namespace Pool

/-- A session with a server: the address, and a number that tells sessions apart. -/
structure Session where
  url : String
  number : Nat
deriving DecidableEq, Repr

/-- A server's place in the table: its address, whether it is connected, and its session. -/
structure Connection where
  url : String
  connected : Bool
  session : Option Session
deriving DecidableEq, Repr

namespace Connection

/-- The session of a connected server, which alone is used. -/
def live? (c : Connection) : Option Session := if c.connected then c.session else none

/-- The place of a server that has been disconnected. -/
def dropped (c : Connection) : Connection := { c with connected := false, session := none }

end Connection

/-- The connections by server name. -/
abbrev Table := Dict Connection

inductive Verdict where
  | ok
  | error
  | timeout
deriving DecidableEq, Repr

def Verdict.name : Verdict → String
  | .ok => "ok"
  | .error => "error"
  | .timeout => "timeout"

/-- The record of one tool call. -/
structure Audit where
  tool : String
  server : String
  verdict : Verdict
  preview : String

/-- What the pool asks of the network and of its own table. Requests with a limit are given up after
so many seconds. -/
inductive Request where
  | connect (url : String) (limit : Nat)
  | list (s : Session) (limit : Nat)
  | call (s : Session) (tool : String) (args : Json) (limit : Nat)
  | close (s : Session)
  | readTable
  | setEntry (name : String) (c : Connection)
  | audit (a : Audit)

/-- The answer to a request with a limit; none if the time was up. -/
abbrev Timed (α : Type) := Option (Except ServerError α)

@[reducible] def Request.Answer : Request → Type
  | connect .. => Timed Session
  | list .. => Timed (List ListedTool)
  | call .. => Timed String
  | close _ => Except ServerError Unit
  | readTable => Table
  | setEntry .. => Unit
  | audit _ => Unit

abbrev Work := Program Request Request.Answer

def Request.send (r : Request) : Work r.Answer := Program.send r

end Pool

/-- The configured servers, in order of preference, and the time limits in seconds. -/
structure Pool where
  servers : List ServerConfig
  fetchLimit : Nat
  requestLimit : Nat

namespace Pool

/-- Limits are at least a second. -/
def ofConfig (servers : List ServerConfig) (fetch request : Nat) : Pool :=
  ⟨servers, max fetch 1, max request 1⟩

def names (p : Pool) : List String := p.servers.map (·.name)

def sessionOf? (t : Table) (name : String) : Option Session := (t.get? name).bind Connection.live?

/-- A server without a place in the table is not connected. -/
def isConnected (t : Table) (name : String) : Bool := (t.get? name).any (·.connected)

/-- Each configured server and whether it is connected. -/
def states (p : Pool) (t : Table) : List (String × Bool) :=
  p.names.map fun n => (n, isConnected t n)

def stateName (connected : Bool) : String := if connected then "connected" else "disconnected"

/-- Opens a session and puts it into the table, in the place of whatever was there. -/
def connect (p : Pool) (s : ServerConfig) : Work (Except ServerError Unit) := do
  match ← (Request.connect s.url p.requestLimit).send with
  | none => return .error (.timeout s.name p.requestLimit)
  | some (.error e) => return .error (.connect s.name e.message)
  | some (.ok session) =>
    (Request.setEntry s.name ⟨s.url, true, some session⟩).send
    return .ok ()

/-- Takes a server's session out of the table and closes it, whether or not that succeeds. -/
def disconnect (name : String) : Work Unit := do
  match (← Request.readTable.send).get? name with
  | none => return ()
  | some c =>
    (Request.setEntry name c.dropped).send
    if let some session := c.session then let _ ← (Request.close session).send

def connectAll (p : Pool) : Work Unit := p.servers.forM fun s => discard (connect p s)

/-- Closes and opens again; true if the server is connected then. Unknown servers are left alone. -/
def reconnect (p : Pool) (name : String) : Work Bool :=
  match p.servers.find? (·.name = name) with
  | none => return false
  | some s => do
    disconnect name
    match ← connect p s with
    | .ok () => return true
    | .error _ => return false

def reconnectAll (p : Pool) : Work (List (String × Bool)) :=
  p.names.mapM fun n => return (n, ← reconnect p n)

def shutdown (p : Pool) : Work Unit := p.names.forM disconnect

/-- The tools of one session, marked with their server. -/
def fetch (p : Pool) (name : String) (s : Session) : Work (Except ServerError (List Handle)) := do
  match ← (Request.list s p.fetchLimit).send with
  | none => return .error (.timeout name p.fetchLimit)
  | some (.error e) => return .error e
  | some (.ok tools) => return .ok (tools.map (Handle.ofListed name))

/-- The tools of a server. If they cannot be had, the server is connected anew and asked once more. -/
def fetchOrRetry (p : Pool) (name : String) : Work (Except ServerError (List Handle)) := do
  let first ← match sessionOf? (← Request.readTable.send) name with
    | some s => fetch p name s
    | none => pure (.error (.notConnected name))
  match first with
  | .ok tools => return .ok tools
  | .error e =>
    if !(← reconnect p name) then return .error e
    match sessionOf? (← Request.readTable.send) name with
    | none => return .error (.notConnected name)
    | some s => fetch p name s

/-- The tools of all servers in order; servers that have none to give are passed over. -/
def allTools (p : Pool) : Work (Except ServerError (List Handle)) := do
  let found ← p.names.mapM fun n => return match ← fetchOrRetry p n with
    | .ok tools => tools
    | .error _ => []
  let tools := found.flatten
  return if tools.isEmpty then .error .allUnavailable else .ok tools

/-- Arguments as an audit shows them: their first 200 characters. -/
def argsPreview (args : Json) : String := Text.clip 200 args.render

/-- Calls a tool in the session of its server. Every call that reaches a session is recorded. -/
def call (p : Pool) (tool : Handle) (args : Json) : Work (Except ServerError String) := do
  if !(p.servers.any (·.name = tool.server)) then return .error (.unknownServer tool.server)
  match sessionOf? (← Request.readTable.send) tool.server with
  | none => return .error (.notConnected tool.server)
  | some s => do
    let answer ← (Request.call s tool.name args p.requestLimit).send
    let verdict := match answer with
      | none => Verdict.timeout
      | some (.ok _) => .ok
      | some (.error _) => .error
    (Request.audit ⟨tool.name, tool.server, verdict, argsPreview args⟩).send
    match answer with
    | none => return .error (.timeout tool.server p.requestLimit)
    | some result => return result

end Pool
end Switchboard
