import Switchboard.Skill.Catalog

/-! Intents, and how a model writes them: one a line, a skill and a task with a bar between. -/
namespace Switchboard

/-- A task, and the skill that handles it. -/
structure Intent where
  skill : String
  task : String
deriving DecidableEq, Repr

namespace Intent

/-- The marks that may stand before an intent, or after its number. -/
def isListMark (c : Char) : Bool :=
  c = '.' || c = '、' || c = ')' || c = '-' || c = '*' || c = '→'

/-- The quotes that may stand around an intent. -/
def isQuoteMark (c : Char) : Bool :=
  c = '\x60' || c = '"' || c = '\'' || c = '“' || c = '”'

/-- The bars that may stand between a skill and a task. -/
def isBar (c : Char) : Bool := c = '|' || c = '｜'

/-- A line without numbers, list marks and quotes around it. -/
def cleanLine (line : List Char) : List Char :=
  let l := (Chars.trim line).dropWhile fun c => '0' ≤ c && c ≤ '9'
  Chars.trim (Chars.trimBy isQuoteMark (Chars.trim (l.dropWhile isListMark)))

/-- The text before the first bar, and the trimmed text after it. -/
def splitBar (line : List Char) : List Char × List Char :=
  (line.takeWhile (!isBar ·), Chars.trim ((line.dropWhile (!isBar ·)).drop 1))

/-- The intent on a line, if its skill part means a skill; without a task the message is the task. -/
def ofLine? (c : Catalog) (message : String) (line : List Char) : Option Intent :=
  let l := cleanLine line
  if l.isEmpty then none
  else
    let (word, task) := splitBar l
    (c.match? (.ofList word)).map fun s =>
      ⟨s.name, if task.isEmpty then message else .ofList task⟩

def parse (c : Catalog) (message output : String) : List Intent :=
  (Chars.lines output.toList).filterMap (ofLine? c message)

/-- New intents first, then the pending ones whose skill none before them has. -/
def merge (new pending : List Intent) : List Intent :=
  pending.foldl (fun merged i => if merged.any (·.skill = i.skill) then merged else merged ++ [i]) new

end Intent
end Switchboard
