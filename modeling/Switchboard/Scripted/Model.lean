import Switchboard.Fault
import Switchboard.Message
import Switchboard.Scripted.Clock
import Switchboard.Text.Cut

/-! A language model that answers by rules: what it says depends on the words in the prompt. -/
namespace Switchboard.Scripted

/-- The replies to prompts in which all the words occur. -/
structure Rule where
  words : List String
  replies : List (Except ModelError String)

/-- The rules in order and the prompts answered so far. -/
structure Model where
  rules : List Rule := []
  prompts : List String := []

namespace Model

/-- Adds a reply to the rule of the same words, or a new rule. -/
def addReply (rules : List Rule) (words : List String) (reply : Except ModelError String) :
    List Rule :=
  match rules with
  | [] => [⟨words, [reply]⟩]
  | r :: rs =>
    if r.words = words then { r with replies := r.replies ++ [reply] } :: rs
    else r :: addReply rs words reply

def ofReplies (replies : List (List String × Except ModelError String)) : Model :=
  { rules := replies.foldl (fun rs r => addReply rs r.1 r.2) [] }

/-- All messages of a call, one under the other. -/
def promptOf (messages : List Message) : String := Text.joined "\n" (messages.map (·.content))

def lastUser (messages : List Message) : String :=
  match messages.reverse.find? (·.role = .user) with
  | some m => m.content
  | none => "(no input)"

/-- The next reply of the first rule that matches, and the rules left. -/
def reply? (prompt : String) : List Rule → Option (Except ModelError String × List Rule)
  | [] => none
  | r :: rs =>
    if r.words.all (Text.contains · prompt) then
      match next? r.replies with
      | some (a, left) => some (a, { r with replies := left } :: rs)
      | none => some (.error .empty, r :: rs)
    else (reply? prompt rs).map fun p => (p.1, r :: p.2)

/-- Answers a call; without a rule the last user message is echoed. -/
def complete (messages : List Message) (m : Model) : Except ModelError String × Model :=
  let prompt := promptOf messages
  let m := { m with prompts := m.prompts ++ [prompt] }
  match reply? prompt m.rules with
  | some (a, rules) => (a, { m with rules })
  | none => (.ok ("Echo from Mock: " ++ lastUser messages), m)

/-- The number of prompts with a word in them. -/
def count (word : String) (m : Model) : Nat := (m.prompts.filter (Text.contains word)).length

end Model
end Switchboard.Scripted
