import Switchboard.Json.Record
import Switchboard.Text.Cut

/-! Tool calls in what a model writes. -/
namespace Switchboard

structure ToolCall where
  tool : String
  args : Json

namespace ToolCall

/-- What stands before and behind a block. -/
def fence : List Char := List.replicate 3 '\x60'

/-- From the first opening brace to the last closing one. -/
def braced? (s : List Char) : Option (List Char) := do
  let (before, _) ← Chars.cut? ['\x7b'] s
  let (after, _) ← Chars.cut? ['\x7d'] s.reverse
  if before.length + after.length + 2 ≤ s.length then
    some ((s.drop before.length).take (s.length - before.length - after.length))
  else none

/-- The part of a reply that may hold a call: the first fenced block marked as JSON, to its fence or
to the end, else what stands between the outermost braces. -/
def payload? (reply : List Char) : Option (List Char) :=
  let s := Chars.trim reply
  match Chars.cut? (fence ++ ['j', 's', 'o', 'n']) s with
  | some (_, rest) =>
    match Chars.cut? fence rest with
    | some (block, _) => some (Chars.trim block)
    | none => some (Chars.trim rest)
  | none => braced? s

/-- A record of the tool's name, which is not blank, and its arguments, null by default. -/
def ofTree? (t : Json.Tree) : Option ToolCall := do
  let f ← t.fields? ["tool", "args"]
  match f.values with
  | [some tool, args] =>
    let tool ← tool.string?
    let args ← match args with
      | some t => Json.ofTree? (Json.maxDepth - 1) t
      | none => some .null
    if Text.isBlankText tool then none else some ⟨tool, args⟩
  | _ => none

def parse? (reply : String) : Option ToolCall := do
  let payload ← payload? reply.toList
  ofTree? (← Json.Tree.parse? (.ofList payload))

end ToolCall
end Switchboard
