import Switchboard.Model.Backend
import Switchboard.Service.Basic
import Switchboard.Skill.Folder
import Switchboard.Store.Basic

/-! An agent as the settings describe it, and the file in which its tables are kept. -/
namespace Switchboard.Store

def cannotOpen : String := "error returned from database: (code: 14) unable to open database file"

def notDatabase : String := "error returned from database: (code: 26) file is not a database"

/-- How the content of a database file begins, unless it is empty. -/
def databaseMark : String := "SQLite format 3\x00"

/-- Why a path cannot be used for a database, if it cannot. A new file needs a folder to be in. -/
def databaseFault? (files : Files) (path : String) : Option String :=
  match files.get? path with
  | some (some text) =>
    if text.isEmpty || Text.startsWith databaseMark text then none else some notDatabase
  | some none => some notDatabase
  | none =>
    if files.isFolder path || !files.isFolder (Files.folderOf path) then some cannotOpen else none

end Switchboard.Store

namespace Switchboard.Service
open Scripted (Act World)
open Scripted.World (hold onPool)

/-- How many replies a step may take before it counts as endless. -/
def patience : Nat := 10000

/-- The skills of the configured folder; there are none without a folder. -/
def loadSkills (files : Files) (folder : String) : Except TurnError (List Skill) :=
  if folder.isEmpty then .ok []
  else (Skill.loadFolder files folder folder).mapError fun e => .config s!"load skills: {e}"

/-- The stores for the configured database, or without one in memory. -/
def openStores (files : Files) (maxMessages : Nat) (database : Option String) :
    Except TurnError Stores :=
  match database with
  | none => .ok (.inLists maxMessages)
  | some path =>
    match Store.databaseFault? files path with
    | some fault => .error (.store fault)
    | none => .ok (.inTables maxMessages)

/-- Puts the configured model, embedder and servers into the world. -/
def equip (s : Settings) (env : Model.Environment) : Act Unit := modify fun w =>
  let embedder := if s.skills.embedding
    then Model.embedder? s.model.baseUrl s.skills.embeddingModel none env else none
  { w with
    modelSource := match Model.Backend.choose s.model env with
      | .echo => .rules
      | .http access => .http access
    callLimit := some (max s.model.requestTimeout 1)
    embedder := embedder.map .http
    toolSource := .http
    pool := .ofConfig s.servers.servers s.servers.fetchTimeout s.servers.requestTimeout }

/-- Connects the servers, loads the skills and opens the stores. -/
def build (s : Settings) (env : Model.Environment) : Act (Except TurnError Agent) := do
  equip s env
  onPool Pool.connectAll
  match loadSkills (← get).files s.skills.dir with
  | .error e => return .error e
  | .ok skills => do
    let catalog := Catalog.ofSkills skills s.skills.fallback
    modify fun w => { w with catalog }
    let hasEmbedder := (← get).embedder.isSome
    let index ← hold ((Skill.Index.ofTopK s.skills.topK).build hasEmbedder catalog)
    match openStores (← get).files s.conversation.maxMessages s.database with
    | .error e => return .error e
    | .ok stores => do
      modify fun w => { w with stores }
      return .ok {
        catalog, index, hasEmbedder
        engine := ⟨s.limits, patience⟩
        window := s.conversation.window }

end Switchboard.Service
