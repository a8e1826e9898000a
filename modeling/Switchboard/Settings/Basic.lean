import Switchboard.Plan.Progress
import Switchboard.Route.Router
import Switchboard.Server.Pool
import Switchboard.Settings.Tree

/-! The settings of the program, their defaults and where they come from. -/
namespace Switchboard

structure Settings.Conversation where
  name : Option String := none
  window : Route.Window := {}
  maxMessages : Nat := 50
deriving DecidableEq, Repr

/-- Which model to use. Without any settings for it, provider and model stay empty. -/
structure Settings.Model where
  provider : String := ""
  model : String := ""
  baseUrl : Option String := none
  deepseekModel : Option String := none
  openaiModel : Option String := none
  requestTimeout : Nat := 60
deriving DecidableEq, Repr

structure Settings.Servers where
  servers : List ServerConfig := []
  fetchTimeout : Nat := 5
  requestTimeout : Nat := 30
  maxConcurrent : Nat := 8
deriving DecidableEq, Repr

structure Settings.Skills where
  dir : String := "config/skills"
  fallback : String := "chitchat"
  topK : Nat := 5
  embedding : Bool := false
  embeddingModel : String := "text-embedding-3-small"
deriving DecidableEq, Repr

structure Settings where
  conversation : Settings.Conversation := {}
  model : Settings.Model := {}
  servers : Settings.Servers := {}
  skills : Settings.Skills := {}
  limits : Plan.Limits := {}
  database : Option String := none
deriving DecidableEq, Repr

namespace Settings
open Setting (Group toText? toNat? toBool? toName? toGroup?)

def Conversation.ofGroup? (g : Group) : Option Conversation := do
  let d : Conversation := {}
  some {
    name := ← g.read? "name" toText?
    window := {
      messages := ← g.read "router_history_messages" toNat? d.window.messages
      preview := ← g.read "assistant_preview_chars" toNat? d.window.preview }
    maxMessages := ← g.read "chat_memory_max_messages" toNat? d.maxMessages }

private def modelName? (g : Group) (key : String) : Option (Option String) := do
  (← g.read key toGroup? []).read? "model" toText?

/-- Where the model has settings of its own, provider and model have defaults. -/
def Model.ofGroup? (g : Group) : Option Model := do
  let d : Model := {}
  some {
    provider := ← g.read "provider" toText? "deepseek"
    model := ← g.read "model" toText? "deepseek-chat"
    baseUrl := ← g.read? "base_url" toText?
    deepseekModel := ← modelName? g "deepseek"
    openaiModel := ← modelName? g "openai"
    requestTimeout := ← (← g.read "timeouts" toGroup? []).read "request" toNat? d.requestTimeout }

/-- A server needs a name and an address. -/
def server? (v : Setting) : Option ServerConfig := do
  let g ← toGroup? v
  some ⟨← toText? (← g.get? "name"), ← toText? (← g.get? "url")⟩

private def serverList? : Setting → Option (List ServerConfig)
  | .list items => items.mapM server?
  | _ => none

def Servers.ofGroup? (g : Group) : Option Servers := do
  let d : Servers := {}
  some {
    servers := ← g.read "servers" serverList? d.servers
    fetchTimeout := ← g.read "fetch_timeout_secs" toNat? d.fetchTimeout
    requestTimeout := ← g.read "request_timeout_secs" toNat? d.requestTimeout
    maxConcurrent := ← g.read "max_concurrent_io" toNat? d.maxConcurrent }

def Skills.ofGroup? (g : Group) : Option Skills := do
  let d : Skills := {}
  some {
    dir := ← g.read "dir" toText? d.dir
    fallback := ← g.read "fallback" toText? d.fallback
    topK := ← g.read "top_k" toNat? d.topK
    embedding := ← g.read "embedding_enabled" toBool? d.embedding
    embeddingModel := ← g.read "embedding_model" toText? d.embeddingModel }

def modeName : Plan.Mode → String
  | .planExecute => "plan_execute"
  | .direct => "direct"

private def mode? (v : Setting) : Option Plan.Mode := do
  let name ← toName? ["plan_execute", "direct"] v
  some (if name = "direct" then .direct else .planExecute)

def limits? (g : Group) : Option Plan.Limits := do
  let d : Plan.Limits := {}
  some {
    mode := ← g.read "mode" mode? d.mode
    maxReplans := ← g.read "max_replan_rounds" toNat? d.maxReplans
    maxAsks := ← g.read "max_ask_user_rounds" toNat? d.maxAsks
    maxToolRounds := ← g.read "max_tool_rounds_per_step" toNat? d.maxToolRounds
    previewChars := ← g.read "observation_preview_chars" toNat? d.previewChars }

/-- A section read by `read`, or the default if it is missing. -/
private def group? (g : Group) (key : String) (read : Group → Option α) (default : α) : Option α :=
  g.read key (fun v => (toGroup? v).bind read) default

/-- Unknown settings are passed over. -/
def ofGroup? (g : Group) : Option Settings := do
  some {
    conversation := ← group? g "app" Conversation.ofGroup? {}
    model := ← group? g "llm" Model.ofGroup? {}
    servers := ← group? g "mcp" Servers.ofGroup? {}
    skills := ← group? g "skills" Skills.ofGroup? {}
    limits := ← group? g "engine" limits? {}
    database := ← group? g "storage" (·.read? "sqlite_path" toText?) none }

/-- The files looked for without being asked for; the first that is there counts. -/
def defaultFiles : List String :=
  ["config/default.toml", "../config/default.toml", "default.toml"]

/-- The settings of a file. Only files whose name ends in `.toml` have any. -/
def ofFile? (name text : String) : Option Group :=
  if ".toml".toList.isSuffixOf name.toList then (Toml.parse? text).map Setting.ofEntries
  else some []

/-- The settings of the default file, of the given file over it and of the environment over both.
`read` gives the text of a file that is there. -/
def load? (read : String → Option String) (path : Option String)
    (environment : List (String × String)) : Option Settings := do
  let chosen := (defaultFiles.find? fun f => (read f).isSome).toList
    ++ (path.filter fun f => (read f).isSome).toList
  let groups ← chosen.mapM fun f => ofFile? f ((read f).getD "")
  let overrides := environment.filterMap fun v => Setting.ofVariable? v.1 v.2
  ofGroup? ((groups ++ [overrides]).foldl Setting.overlay [])

end Settings
end Switchboard
