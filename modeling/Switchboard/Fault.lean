/-! What can go wrong, and how it reads. -/
namespace Switchboard

/-- Faults of the tool servers and their connections. -/
inductive ServerError where
  | unknownServer (name : String)
  | notConnected (server : String)
  | connect (server reason : String)
  | timeout (server : String) (seconds : Nat)
  | rpc (code : Int) (message : String)
  | transport (text : String)
  | protocol (text : String)
  | allUnavailable
deriving DecidableEq, Repr

/-- Faults of the language model. -/
inductive ModelError where
  | request (text : String)
  | timeout (seconds : Nat)
  | empty
deriving DecidableEq, Repr

/-- Faults of a turn and of what it uses. -/
inductive TurnError where
  | model (e : ModelError)
  | server (e : ServerError)
  | skillNotFound (name : String)
  | noFallback
  | store (text : String)
  | config (text : String)
  | cancelled
deriving DecidableEq, Repr

def ServerError.message : ServerError → String
  | .unknownServer n => s!"Unknown server: {n}"
  | .notConnected s => s!"Server [{s}] is not connected"
  | .connect s r => s!"Failed to connect server [{s}]: {r}"
  | .timeout s t => s!"Server [{s}] timed out after {t}s"
  | .rpc c m => s!"RPC error {c}: {m}"
  | .transport t => s!"Transport error: {t}"
  | .protocol t => s!"Protocol error: {t}"
  | .allUnavailable => "所有 MCP Server 均不可用"

def ModelError.message : ModelError → String
  | .request t => s!"request failed: {t}"
  | .timeout t => s!"timed out after {t}s"
  | .empty => "empty response"

def TurnError.message : TurnError → String
  | .model e => s!"LLM error: {e.message}"
  | .server e => s!"MCP error: {e.message}"
  | .skillNotFound n => s!"Skill not found: {n}"
  | .noFallback => "No fallback skill configured"
  | .store t => s!"Store error: {t}"
  | .config t => s!"Config error: {t}"
  | .cancelled => "Cancelled"

end Switchboard
