import Switchboard.Scripted.Clock
import Switchboard.Server.Pool

/-! Tool servers with prepared answers, and a log of what reaches them. -/
namespace Switchboard.Scripted

/-- A prepared answer and how long it takes. -/
structure Timed (α : Type) where
  delay : Delay
  result : Except ServerError α

/-- The answers of one address, for all its sessions together. -/
structure Endpoint where
  connects : List (Timed Unit) := []
  lists : List (Timed (List ListedTool)) := []
  closes : List (Timed Unit) := []
  calls : Dict (List (Timed String)) := []
  sessions : Nat := 0

structure Endpoints where
  byUrl : Dict Endpoint := []
  log : List String := []

namespace Endpoints

private def write (line : String) (e : Endpoints) : Endpoints := { e with log := e.log ++ [line] }

private def update (url : String) (f : Endpoint → Endpoint) (e : Endpoints) : Endpoints :=
  match e.byUrl.get? url with
  | some p => { e with byUrl := e.byUrl.put url (f p) }
  | none => e

private def endpoint (url : String) (e : Endpoints) : Endpoint := (e.byUrl.get? url).getD {}

private def sessionText (s : Pool.Session) : String := s!"{s.url}#{s.number}"

/-- The answer to opening a session; nothing listens at an unknown address. -/
def connect (url : String) (e : Endpoints) : Timed Unit × Endpoints :=
  let e := e.write s!"connect {url}"
  match e.byUrl.get? url with
  | none => (⟨some 0, .error (.transport "connection refused")⟩, e)
  | some p =>
    match next? p.connects with
    | some (a, left) => (a, e.update url fun p => { p with connects := left })
    | none => (⟨some 0, .ok ()⟩, e)

/-- Counts a session that was opened. -/
def opened (url : String) (e : Endpoints) : Pool.Session × Endpoints :=
  let n := (e.endpoint url).sessions + 1
  (⟨url, n⟩, e.update url fun p => { p with sessions := n })

def list (s : Pool.Session) (e : Endpoints) : Timed (List ListedTool) × Endpoints :=
  let e := e.write s!"list {sessionText s}"
  match next? (e.endpoint s.url).lists with
  | some (a, left) => (a, e.update s.url fun p => { p with lists := left })
  | none => (⟨some 0, .ok []⟩, e)

def call (s : Pool.Session) (tool : String) (args : Json) (e : Endpoints) :
    Timed String × Endpoints :=
  let e := e.write s!"call {sessionText s} {tool} {args.render}"
  match ((e.endpoint s.url).calls.get? tool).bind next? with
  | some (a, left) => (a, e.update s.url fun p => { p with calls := p.calls.put tool left })
  | none => (⟨some 0, .error (.rpc (-32601) s!"unknown tool {tool}")⟩, e)

def close (s : Pool.Session) (e : Endpoints) : Timed Unit × Endpoints :=
  let e := e.write s!"close {sessionText s}"
  match next? (e.endpoint s.url).closes with
  | some (a, left) => (a, e.update s.url fun p => { p with closes := left })
  | none => (⟨some 0, .ok ()⟩, e)

end Endpoints
end Switchboard.Scripted
