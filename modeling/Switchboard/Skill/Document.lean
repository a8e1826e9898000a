import Switchboard.Text.Cut

/-! Skill documents: a header between two fences of three dashes, and a body. -/
namespace Switchboard.Skill

/-- What a skill document says. Only a header without a usable name leaves the name out. -/
structure Document where
  name : Option String := none
  description : String := ""
  tools : List String := []
  body : String := ""
deriving DecidableEq, Repr

namespace Document

def isQuote (c : Char) : Bool := c = '"' || c = '\''

/-- The names between blanks and commas. -/
def toolNames (value : List Char) : List String :=
  ((Chars.splitBy (fun c => isBlank c || c = ',') value).filter (!·.isEmpty)).map String.ofList

/-- What one line of the header adds; lines without a colon and unknown keys add nothing. -/
def addLine (doc : Document) (line : List Char) : Document :=
  match Chars.cut? [':'] line with
  | none => doc
  | some (key, rest) =>
    let key := String.ofList (Chars.trim key)
    let value := Chars.trimBy isQuote (Chars.trim rest)
    if key = "name" then
      { doc with name := if value.isEmpty then none else some (.ofList value) }
    else if key = "description" then { doc with description := .ofList value }
    else if key = "allowed-tools" then { doc with tools := toolNames value }
    else doc

/-- What follows the first fence, which stands alone on the first line after any byte-order marks. -/
def afterFence? (s : List Char) : Option (List Char) := do
  match ← Chars.after? ['-', '-', '-'] (s.dropWhile (· == '\uFEFF')) with
  | '\r' :: '\n' :: r => some r
  | '\n' :: r => some r
  | _ => none

/-- The header ends at the first line that starts with three dashes; the body is what follows them,
without line ends in front. A text without both fences is no document. -/
def parseChars? (s : List Char) : Option Document := do
  let rest ← afterFence? s
  let (header, body) ← Chars.cut? ['\n', '-', '-', '-'] rest
  let doc := (Chars.lines header).foldl addLine {}
  some { doc with body := .ofList (body.dropWhile fun c => c = '\r' || c = '\n') }

def parse? (text : String) : Option Document := parseChars? text.toList

/-- The prompt in a text: the body of a document, or the whole text if it is none. -/
def promptOf (text : String) : String :=
  Text.trim (match parse? text with
    | some doc => doc.body
    | none => text)

end Document
end Switchboard.Skill
