import Switchboard.Fault
import Switchboard.Json.Record
import Switchboard.Text.Cut

/-! JSON-RPC responses of a tool server, alone or as server-sent events. -/
namespace Switchboard.Rpc

structure Error where
  code : Int
  message : String
  data : Option Json

structure Response where
  version : String
  id : Option Nat
  result : Option Json
  error : Option Error

/-- A null counts as a value left out. -/
def present (t : Option Json.Tree) : Option Json.Tree := t.filter (!·.isNull)

/-- Reads an optional field with the reader of its values. -/
def optional? (read : Json.Tree → Option α) (t : Option Json.Tree) : Option (Option α) :=
  match present t with
  | none => some none
  | some t => (read t).map some

/-- In an array every field has to be written, in an object only those that are required. -/
def written (positional : Bool) (t : Option Json.Tree) : Bool := !positional || t.isSome

def Error.ofTree? (t : Json.Tree) : Option Error := do
  let f ← t.fields? ["code", "message", "data"]
  match f.values with
  | [some code, some message, data] =>
    guard (written f.positional data)
    some ⟨← code.int64?, ← message.string?, ← optional? (Json.ofTree? (Json.maxDepth - 2)) data⟩
  | _ => none

def Error.toJson (e : Error) : Json :=
  Json.object ([("code", Json.int e.code), ("message", .str e.message)]
    ++ (e.data.map fun d => ("data", d)).toList)

namespace Response

def ofTree? (t : Json.Tree) : Option Response := do
  let f ← t.fields? ["jsonrpc", "id", "result", "error"]
  match f.values with
  | [some version, id, result, error] =>
    guard (written f.positional result && written f.positional error)
    some ⟨← version.string?, ← optional? Json.Tree.nat64? id,
      ← optional? (Json.ofTree? (Json.maxDepth - 1)) result, ← optional? Error.ofTree? error⟩
  | _ => none

def parse? (text : String) : Option Response := do ofTree? (← Json.Tree.parse? text)

def toJson (r : Response) : Json :=
  Json.object ([("jsonrpc", .str r.version), ("id", (r.id.map Json.nat).getD .null)]
    ++ (r.result.map fun v => ("result", v)).toList
    ++ (r.error.map fun e => ("error", e.toJson)).toList)

/-- An error object counts before a result. -/
def outcome (r : Response) : Except ServerError Json :=
  match r.error, r.result with
  | some e, _ => .error (.rpc e.code e.message)
  | none, some v => .ok v
  | none, none => .error (.protocol "response has neither result nor error")

end Response

/-- The responses on the data lines of a stream, in order; other data are passed over. -/
def streamed (body : String) : List Response :=
  (Text.lines body).filterMap fun line => do
    let data ← Text.after? "data:" line
    Response.parse? (Text.trim data)

/-- The first response with the id; without an id the first one. -/
def Response.ofStream (body : String) (id : Option Nat) : Except ServerError Response :=
  match (streamed body).find? fun r => id.isNone || r.id == id with
  | some r => .ok r
  | none => .error (.protocol "no JSON-RPC response in event stream")

end Switchboard.Rpc
