import Switchboard.Json.Lenient
import Switchboard.Plan.Progress
import Switchboard.Scripted.World

/-! Worlds as JSON describes them: what the model says, which tools there are, how servers answer. -/
namespace Switchboard.Scripted.Script
open Json

def intent (v : Json) : Intent := ⟨toText (item 0 v), toText (item 1 v)⟩

def record (v : Json) : Plan.StepRecord := ⟨toText (item 0 v), toText (item 1 v)⟩

def recordsAt (k : String) (v : Json) : List Plan.StepRecord := (items (field k v)).map record

def message (v : Json) : Message := ⟨Role.ofName (toText (item 0 v)), toText (item 1 v)⟩

def serverError (v : Json) : ServerError :=
  let t := textAt "text" v
  let s := textAt "server" v
  match textAt "kind" v with
  | "unknown_server" => .unknownServer t
  | "not_connected" => .notConnected t
  | "connect" => .connect s t
  | "timeout" => .timeout s (natOr 0 (field "secs" v))
  | "rpc" => .rpc (toInt (field "code" v)) t
  | "protocol" => .protocol t
  | "all_unavailable" => .allUnavailable
  | _ => .transport t

def modelError (v : Json) : ModelError :=
  match textAt "kind" v with
  | "timeout" => .timeout (natOr 0 (field "secs" v))
  | "empty" => .empty
  | _ => .request (textAt "text" v)

/-- A skill with its prompt, or with the path of the file that has it. -/
def skill (v : Json) : Skill where
  name := textAt "name" v
  description := textAt "description" v
  tools := textsAt "tools" v
  prompt := match string? (field "prompt_file" v) with
    | some path => .file path
    | none => .text (textAt "prompt" v)

/-- The fallback has a name unless another is given. -/
def catalog (v : Json) : Catalog :=
  .ofSkills ((items (field "skills" v)).map skill) ((string? (field "fallback" v)).getD "chitchat")

/-- The short name is the name unless it is given. -/
def handle (v : Json) : Handle where
  server := textAt "server" v
  name := textAt "name" v
  short := (string? (field "short" v)).getD (textAt "name" v)
  description := textAt "description" v
  schema := field "schema" v

def handlesAt (k : String) (v : Json) : List Handle := (items (field k v)).map handle

def limits (v : Json) : Plan.Limits :=
  let d : Plan.Limits := {}
  { mode := if textAt "mode" v = "direct" then .direct else .planExecute
    maxReplans := natOr d.maxReplans (field "max_replan_rounds" v)
    maxAsks := natOr d.maxAsks (field "max_ask_user_rounds" v)
    maxToolRounds := natOr d.maxToolRounds (field "max_tool_rounds_per_step" v)
    previewChars := natOr d.previewChars (field "observation_preview_chars" v) }

/-- The words of a rule and one of its replies. -/
def rule (v : Json) : List String × Except ModelError String :=
  let words := match field "on" v with
    | .str s => [s]
    | other => (items other).map toText
  (words, match v.get? "fail" with
    | some e => if isNull e then .ok (textAt "reply" v) else .error (modelError e)
    | none => .ok (textAt "reply" v))

def usage (v : Json) : Model.Usage :=
  let count (i : Nat) : UInt64 := UInt64.ofNat (natOr 0 (item i v))
  ⟨count 0, count 1, count 2⟩

def delay (v : Json) : Delay := if toBool (field "hang" v) then none else some (natOr 0 (field "delay" v))

def timed (ok : Json → Except ServerError α) (v : Json) : Timed α :=
  ⟨delay v, match field "err" v with
    | .null => ok (field "ok" v)
    | e => .error (serverError e)⟩

/-- The tools a server lists; anything but a list of tools is an answer out of order. -/
def listing (v : Json) : Except ServerError (List ListedTool) :=
  match v with
  | .null => .ok []
  | v => match Rpc.listing? (.obj [("tools", v)]) with
    | some tools => .ok tools
    | none => .error (.protocol "invalid tools/list result")

def endpoint (v : Json) : Endpoint where
  connects := (items (field "connect" v)).map (timed fun _ => .ok ())
  lists := (items (field "list" v)).map (timed listing)
  closes := (items (field "close" v)).map (timed fun _ => .ok ())
  calls := (members (field "call" v)).map fun m =>
    (m.1, (items m.2).map (timed fun ok => .ok (toText ok)))

def tools (v : Json) : Tools where
  handles := handlesAt "handles" v
  error := match field "error" v with
    | .null => none
    | e => some (serverError e)
  replies := (members (field "replies" v)).map fun m => (m.1, (items m.2).map fun r =>
    match field "err" r with
    | .null => .ok (textAt "ok" r)
    | e => .error (serverError e))

def embedder (v : Json) : Option EmbedderSource :=
  match v with
  | .null => none
  | v => some (.keys
    { keys := textsAt "keys" v
      vectors := (members (field "vectors" v)).map fun m => (m.1, (items m.2).map toFloat32)
      failOn := string? (field "fail_on" v)
      emptyOn := string? (field "empty_on" v) })

/-- A world with a model, tools, skills and stores, some of which may be broken. -/
def world (v : Json) (llm : Json) : World :=
  { leavesAtCall := toNat? (field "close_on_call" llm)
    model := .ofReplies ((items (field "rules" llm)).map rule)
    delays := (items (field "delays" llm)).map fun d => (toText (item 0 d), natOr 0 (item 1 d))
    callLimit := (toNat? (field "timeout" llm)).map fun n => max n 1
    usage := usage (field "usage" llm)
    embedder := embedder (field "embedder" v)
    tools := tools (field "tools" v)
    catalog := catalog v
    broken := textsAt "store_fail" v
    stores := .inLists (natOr 50 (field "max_messages" v)) }

def serverConfig (v : Json) : ServerConfig := ⟨textAt "name" v, textAt "url" v⟩

/-- The same world with servers. -/
def serverWorld (v : Json) (llm : Json) : World :=
  { world v llm with
    toolSource := .endpoints
    pool := .ofConfig ((items (field "servers" v)).map serverConfig)
      (natOr 5 (field "fetch_timeout" v)) (natOr 30 (field "request_timeout" v))
    endpoints := { byUrl := (members (field "endpoints" v)).map fun m => (m.1, endpoint m.2) } }

def hexDigit (c : Char) : Nat :=
  if c.isDigit then c.toNat - '0'.toNat else c.toLower.toNat - 'a'.toNat + 10

def hexBytes : List Char → List UInt8
  | a :: b :: rest => UInt8.ofNat (hexDigit a * 16 + hexDigit b) :: hexBytes rest
  | _ => []

/-- The text of a file; one given by its bytes may have none. -/
def content (v : Json) : Option String :=
  match string? (field "hex" v) with
  | some hex => String.fromUTF8? ⟨(hexBytes hex.toList).toArray⟩
  | none => some (toText v)

def files (v : Json) : Files :=
  (items v).foldl (fun fs f => Dict.put (toText (item 0 f)) (content (item 1 f)) fs) []

def httpReply (v : Json) : HttpReply :=
  ⟨toBool (field "drop" v),
    { status := natOr 200 (field "status" v)
      contentType := some ((string? (field "type" v)).getD "application/json")
      session := string? (field "session" v)
      body := .ok <| match field "body" v with
        | .null => ""
        | .str s => s
        | b => b.render }⟩

/-- A server with prepared replies. -/
def httpServer (base : String) (reachable : Bool) (script : Json) : HttpServer where
  base := base
  reachable := reachable
  script := (members script).map fun m => (m.1, (items m.2).map httpReply)

end Switchboard.Scripted.Script
