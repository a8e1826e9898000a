import Switchboard.Http.Basic
import Switchboard.Rpc.Request
import Switchboard.Rpc.Response
import Switchboard.Rpc.Result

/-! A session with a tool server over HTTP: numbered requests, and a name that the server gives the
session. -/
namespace Switchboard

structure HttpSession where
  endpoint : String
  id : Option String := none
  nextRequest : Nat := 1
deriving DecidableEq, Repr

namespace HttpSession

def clientName : String := "skill-gateway"

def accepted : String := "application/json, text/event-stream"

/-- Header values are read only if they consist of visible ASCII, spaces and tabs. -/
def isReadable (value : String) : Bool :=
  value.toList.all fun c => (0x20 ≤ c.toNat && c.toNat < 0x7F) || c == '\t'

private def failureText (url : String) : Http.Failure → String
  | .timeout => s!"request to {url} timed out"
  | .unsent => Http.unsentText url

/-- The result of what a session does, and the session afterwards. -/
abbrev After (α : Type) := Except ServerError α × HttpSession

/-- Sends one request. The session takes its name from any reply that has one, also from a reply
that reports a failure. -/
def post (body : Rpc.Request) (s : HttpSession) : Http.Exchange (After Http.Reply) := do
  let request : Http.Request :=
    { method := .post, url := s.endpoint, accept := some accepted, session := s.id,
      body := some body.toJson }
  match ← request.send with
  | .error f => return (.error (.transport (failureText s.endpoint f)), s)
  | .ok reply =>
    let s := match reply.session.filter isReadable with
      | some id => { s with id := some id }
      | none => s
    if reply.isSuccess then return (.ok reply, s)
    else return (.error (.transport s!"{s.endpoint} returned HTTP {Http.statusText reply.status}"), s)

def withoutMark (text : String) : String := (Text.after? "\uFEFF" text).getD text

/-- The response in a reply: in its event stream, or its whole body. -/
def responseOf (id : Option Nat) (reply : Http.Reply) : Except ServerError Rpc.Response :=
  match reply.body with
  | .error text => .error (.transport text)
  | .ok body =>
    let body := withoutMark body
    if (reply.contentType.map fun t => isReadable t && Text.contains "text/event-stream" t).getD false
    then Rpc.Response.ofStream body id
    else match Rpc.Response.parse? body with
      | some r => .ok r
      | none => .error (.protocol "invalid JSON-RPC response")

/-- Sends a request under the next number and reads its result. -/
def request (make : Nat → Rpc.Request) (s : HttpSession) : Http.Exchange (After Json) := do
  let body := make s.nextRequest
  match ← post body { s with nextRequest := s.nextRequest + 1 } with
  | (.error e, s) => return (.error e, s)
  | (.ok reply, s) => return ((responseOf body.id reply).bind Rpc.Response.outcome, s)

/-- Opens a session: a greeting, and a notification once it is answered. -/
def connect (endpoint : String) : Http.Exchange (After Unit) := do
  match ← request (Rpc.Request.greeting · clientName) { endpoint } with
  | (.error e, s) => return (.error e, s)
  | (.ok _, s) =>
    let (result, s) ← post Rpc.Request.greeted s
    return (result.map fun _ => (), s)

def listTools (s : HttpSession) : Http.Exchange (After (List ListedTool)) := do
  let (result, s) ← request Rpc.Request.listTools s
  return (result.bind fun v => match Rpc.listing? v with
    | some tools => .ok tools
    | none => .error (.protocol "invalid tools/list result"), s)

/-- The text a tool returns; one that reports an error fails with its text. -/
def textOf (v : Json) : Except ServerError String :=
  match Rpc.CallResult.ofJson? v with
  | some r => if r.isError then .error (.rpc (-1) r.text) else .ok r.text
  | none => .error (.protocol "invalid tools/call result")

def callTool (name : String) (args : Json) (s : HttpSession) : Http.Exchange (After String) := do
  let (result, s) ← request (Rpc.Request.callTool · name args) s
  return (result.bind textOf, s)

/-- Gives up the session's name, and tells the server if there was one. -/
def close (s : HttpSession) : Http.Exchange (After Unit) := do
  match s.id with
  | none => return (.ok (), s)
  | some id =>
    let request : Http.Request := { method := .delete, url := s.endpoint, session := some id }
    let s := { s with id := none }
    match ← request.send with
    | .error _ => return (.error (.transport (Http.unsentText s.endpoint)), s)
    | .ok _ => return (.ok (), s)

end HttpSession
end Switchboard
