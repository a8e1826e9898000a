import Switchboard.Json.Record
import Switchboard.Tool.Handle

/-! Results of the requests that list and call tools. -/
namespace Switchboard
open Json (fields? string?)

def ListedTool.ofJson? (v : Json) : Option ListedTool := do
  let f ← fields? ["name", "description", "inputSchema"] v
  match f.values with
  | [some name, description, schema] =>
    let description ← (description.map string?).getD (some "")
    some ⟨← string? name, description, schema.getD .null⟩
  | _ => none

namespace Rpc

/-- The tools in the result of a listing. -/
def listing? (v : Json) : Option (List ListedTool) := do
  let f ← fields? ["tools"] v
  match f.values with
  | [some (.arr tools)] => tools.mapM ListedTool.ofJson?
  | _ => none

/-- One part of what a tool returns. -/
inductive Block where
  | text (text : String)
  | image (data mimeType : String)
  | resource (resource : Json)

namespace Block

/-- The part of the kind that a tag names; a member beside its fields is passed over. -/
private def tagged? (tag : String) (fields : List String → Option (Json.Fields Json)) :
    Option Block := do
  if tag = "text" then
    match (← fields ["text"]).values with
    | [some t] => some (.text (← string? t))
    | _ => none
  else if tag = "image" then
    match (← fields ["data", "mimeType"]).values with
    | [some d, some m] => some (.image (← string? d) (← string? m))
    | _ => none
  else if tag = "resource" then
    match (← fields ["resource"]).values with
    | [some r] => some (.resource r)
    | _ => none
  else none

/-- An object tagged by its type, or an array that starts with the tag. -/
def ofJson? : Json → Option Block
  | .obj ms => do
    let tag ← string? (← ms.lookup "type")
    tagged? tag fun names => fields? names (.obj ms)
  | .arr (tag :: items) => do
    tagged? (← string? tag) fun names => fields? names (.arr items)
  | _ => none

def toJson : Block → Json
  | .text t => Json.object [("type", .str "text"), ("text", .str t)]
  | .image d m => Json.object [("type", .str "image"), ("data", .str d), ("mimeType", .str m)]
  | .resource r => Json.object [("type", .str "resource"), ("resource", r)]

def text? : Block → Option String
  | .text t => some t
  | _ => none

end Block

structure CallResult where
  content : List Block
  isError : Bool

namespace CallResult

def ofJson? (v : Json) : Option CallResult := do
  let f ← fields? ["content", "isError"] v
  match f.values with
  | [content, isError] =>
    let content ← match content with
      | none => some []
      | some (.arr blocks) => blocks.mapM Block.ofJson?
      | some _ => none
    let isError ← match isError with
      | none => some false
      | some (.bool b) => some b
      | some _ => none
    some ⟨content, isError⟩
  | _ => none

/-- The text parts, one under the other. -/
def text (r : CallResult) : String := Text.joined "\n" (r.content.filterMap Block.text?)

end CallResult
end Rpc
end Switchboard
