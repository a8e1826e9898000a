import Switchboard.Json.Value

/-! JSON-RPC requests to a tool server. -/
namespace Switchboard.Rpc

/-- A request; one without an id is a notification. -/
structure Request where
  id : Option Nat
  method : String
  params : Option Json

namespace Request

def numbered (id : Nat) (method : String) (params : Option Json) : Request := ⟨some id, method, params⟩

def notification (method : String) : Request := ⟨none, method, none⟩

def protocolVersion : String := "2024-11-05"

def clientVersion : String := "0.1.0"

/-- The first request of a session. -/
def greeting (id : Nat) (client : String) : Request :=
  numbered id "initialize" (some (Json.object [
    ("protocolVersion", .str protocolVersion),
    ("capabilities", .obj []),
    ("clientInfo", Json.object [("name", .str client), ("version", .str clientVersion)])]))

/-- The notification that ends the greeting. -/
def greeted : Request := notification "notifications/initialized"

def listTools (id : Nat) : Request := numbered id "tools/list" (some (.obj []))

def callTool (id : Nat) (name : String) (args : Json) : Request :=
  numbered id "tools/call" (some (Json.object [("name", .str name), ("arguments", args)]))

def toJson (r : Request) : Json :=
  Json.object ([("jsonrpc", .str "2.0"), ("method", .str r.method)]
    ++ (r.id.map fun i => ("id", Json.nat i)).toList
    ++ (r.params.map fun p => ("params", p)).toList)

end Request
end Switchboard.Rpc
