import Switchboard.Json.Value
import Switchboard.Model.Chat
import Switchboard.Server.Pool
import Switchboard.Skill.Catalog

/-! Reports on the state of a service. -/
namespace Switchboard.Service

/-- A server as a report shows it; the address is known once the server has been connected. -/
structure ServerHealth where
  name : String
  address : Option String
  connected : Bool
deriving DecidableEq, Repr

structure Health where
  skills : List (String × String)
  fallback : String
  servers : List ServerHealth
  /-- The names of the tools there are. -/
  tools : List String
  usage : Model.Usage
deriving DecidableEq, Repr

/-- The skills with their descriptions, in order of their names. -/
def described (c : Catalog) : List (String × String) := c.skills.map fun s => (s.name, s.description)

def serverHealth (p : Pool) (t : Pool.Table) : List ServerHealth :=
  (p.states t).map fun s => ⟨s.1, (t.get? s.1).map (·.url), s.2⟩

namespace Health

/-- A service with servers but without tools is degraded. -/
def isDegraded (h : Health) : Bool := h.tools.isEmpty && !h.servers.isEmpty

def status (h : Health) : String := if h.isDegraded then "DEGRADED" else "UP"

private def serverJson (s : ServerHealth) : Json :=
  .obj [("name", .str s.name), ("endpoint", (s.address.map Json.str).getD .null),
    ("state", .str (Pool.stateName s.connected))]

private def usageJson (u : Model.Usage) : Json :=
  .arr ([u.prompt, u.completion, u.total].map fun n => .nat n.toNat)

/-- The report with its members in reading order; `time` says when it was made. -/
def toJson (h : Health) (time : Option String) : Json :=
  .obj ([("status", .str h.status)]
    ++ (time.map fun t => ("checked_at", Json.str t)).toList
    ++ [("skills", .obj (h.skills.map fun s => (s.1, .str s.2))),
      ("fallback_skill", .str h.fallback),
      ("servers", .arr (h.servers.map serverJson)),
      ("tool_count", .nat h.tools.length),
      ("tools", .arr (h.tools.map .str)),
      ("token_usage", usageJson h.usage)])

end Health
end Switchboard.Service
