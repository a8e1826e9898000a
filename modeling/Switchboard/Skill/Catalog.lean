import Switchboard.Fault
import Switchboard.Text.Lowercase
import Switchboard.Text.Cut

/-! Skills, and the catalog that finds them by name. -/
namespace Switchboard

/-- Where the prompt of a skill comes from: a file that is read when it is first needed, or a text. -/
inductive PromptSource where
  | file (path : String)
  | text (prompt : String)
deriving DecidableEq, Repr

structure Skill where
  name : String
  description : String
  tools : List String
  prompt : PromptSource
deriving DecidableEq, Repr

/-- A line for choosing among skills. -/
def Skill.summary (s : Skill) : String := s!"{s.name}: {s.description}"

/-- Skills in order of their names, each name once, and the name of the one to fall back on. -/
structure Catalog where
  skills : List Skill
  fallback : String
deriving Repr

/-- Of neighbours with equal names only the first stays. -/
def Skill.firsts : List Skill → List Skill
  | [] => []
  | s :: rest =>
    match Skill.firsts rest with
    | [] => [s]
    | t :: ts => if t.name = s.name then s :: ts else s :: t :: ts

/-- Sorted by name; skills of one name keep their order. -/
def Skill.sorted (skills : List Skill) : List Skill :=
  skills.mergeSort fun a b => decide (a.name ≤ b.name)

namespace Catalog

def ofSkills (skills : List Skill) (fallback : String) : Catalog :=
  ⟨Skill.firsts (Skill.sorted skills), fallback⟩

def names (c : Catalog) : List String := c.skills.map (·.name)

def get? (c : Catalog) (name : String) : Option Skill := c.skills.find? (·.name = name)

def fallback? (c : Catalog) : Option Skill := c.get? c.fallback

/-- The skill a word means: the one of that name in lower case, else the first whose name occurs in
the word. Blank words mean none. -/
def match? (c : Catalog) (word : String) : Option Skill :=
  let name := Text.lower (Text.trim word)
  if name.isEmpty then none
  else (c.get? name).or (c.skills.find? fun s => Text.contains s.name name)

/-- The skill of a name, else the fallback. -/
def resolve (c : Catalog) (name : String) : Except TurnError Skill :=
  match (c.get? name).or c.fallback? with
  | some s => .ok s
  | none => .error .noFallback

end Catalog
end Switchboard
