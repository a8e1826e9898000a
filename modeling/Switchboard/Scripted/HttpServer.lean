import Switchboard.Dict
import Switchboard.Http.Basic
import Switchboard.Json.Printer
import Switchboard.Scripted.Clock
import Switchboard.Text.Cut

/-! An HTTP server with prepared replies. -/
namespace Switchboard.Scripted

/-- A prepared reply; a dropped one closes the connection without a word. -/
structure HttpReply where
  dropped : Bool
  reply : Http.Reply

/-- The replies by request, whether the server can be reached at all, and the requests that reached
it. -/
structure HttpServer where
  base : String
  reachable : Bool
  script : Dict (List HttpReply)
  requests : List Http.Request := []

namespace HttpServer

private def notFound : HttpReply := ⟨false, ⟨404, some "application/json", none, .ok ""⟩⟩

/-- Requests are told apart by the method that their body names, else by how they are sent, else by
their path. -/
def keyOf (s : HttpServer) (r : Http.Request) : String :=
  match r.body.bind (Json.get? "method") with
  | some (.str m) => m
  | _ => match r.method with
    | .delete => "DELETE"
    | .post => (Text.after? s.base r.url).getD r.url

/-- Answers one request sent to the server. -/
def answer (r : Http.Request) (s : HttpServer) : Except Http.Failure Http.Reply × HttpServer :=
  if !s.reachable then (.error .unsent, s)
  else
    let s := { s with requests := s.requests ++ [r] }
    let key := s.keyOf r
    let (a, s) := match (s.script.get? key).bind next? with
      | some (a, left) => (a, { s with script := s.script.put key left })
      | none => (notFound, s)
    (if a.dropped then .error .unsent else .ok a.reply, s)

/-- Whether a request goes to this server. -/
def owns (s : HttpServer) (r : Http.Request) : Bool := Text.startsWith s.base r.url

end HttpServer

/-- Several servers; nothing answers elsewhere. -/
abbrev HttpServers := List HttpServer

/-- The first server that a request goes to answers it. -/
def HttpServers.answer (r : Http.Request) :
    HttpServers → Except Http.Failure Http.Reply × HttpServers
  | [] => (.error .unsent, [])
  | s :: ss =>
    if s.owns r then
      let (a, s) := s.answer r
      (a, s :: ss)
    else
      let (a, ss) := HttpServers.answer r ss
      (a, s :: ss)

/-- Runs exchanges against the servers. -/
def HttpServers.run (e : Http.Exchange α) : StateM HttpServers α :=
  e.interpret fun r ss => HttpServers.answer r ss

end Switchboard.Scripted
