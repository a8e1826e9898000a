import Switchboard.Json.Lexeme

/-! JSON texts as trees of what is written: members in order, equal keys side by side. -/
namespace Switchboard.Json

inductive Tree where
  | null
  | bool (b : Bool)
  | num (n : Numeral)
  | str (s : List Piece)
  | arr (items : List Tree)
  | obj (members : List (List Piece × Tree))
deriving Repr

/-- A container that is being read, with its finished parts in reverse. -/
inductive Frame where
  | items (done : List Tree)
  | members (done : List (List Piece × Tree)) (key : List Piece)

/-- What may come next: a value, a value or the end of its array, a key or the end of its object, a
key, the colon after a key, or what may follow a finished value. -/
inductive Awaiting where
  | value
  | firstItem
  | firstKey
  | key (done : List (List Piece × Tree))
  | colon (done : List (List Piece × Tree)) (key : List Piece)
  | after (t : Tree)

/-- The scalar that a lexeme is. -/
def scalar? : Lexeme → Option Tree
  | .null => some .null
  | .bool b => some (.bool b)
  | .num n => some (.num n)
  | .str s => some (.str s)
  | _ => none

/-- One lexeme where a value may start. -/
def startValue (stack : List Frame) (l : Lexeme) : Option (List Frame × Awaiting) :=
  match l with
  | .openArray => some (stack, .firstItem)
  | .openObject => some (stack, .firstKey)
  | l => (scalar? l).map fun t => (stack, .after t)

/-- One lexeme further, with the open containers innermost first. -/
def advance : List Frame → Awaiting → Lexeme → Option (List Frame × Awaiting)
  | stack, .value, l => startValue stack l
  | stack, .firstItem, .closeArray => some (stack, .after (.arr []))
  | stack, .firstItem, l => startValue (.items [] :: stack) l
  | stack, .firstKey, .closeObject => some (stack, .after (.obj []))
  | stack, .firstKey, .str k => some (stack, .colon [] k)
  | stack, .key done, .str k => some (stack, .colon done k)
  | stack, .colon done k, .colon => some (.members done k :: stack, .value)
  | .items done :: stack, .after t, .comma => some (.items (t :: done) :: stack, .value)
  | .items done :: stack, .after t, .closeArray =>
    some (stack, .after (.arr (t :: done).reverse))
  | .members done k :: stack, .after t, .comma => some (stack, .key ((k, t) :: done))
  | .members done k :: stack, .after t, .closeObject =>
    some (stack, .after (.obj ((k, t) :: done).reverse))
  | _, _, _ => none

/-- Reads the lexemes to their end, where one value must be finished and no container open. -/
def assemble : List Frame → Awaiting → List Lexeme → Option Tree
  | [], .after t, [] => some t
  | _, _, [] => none
  | stack, a, l :: ls =>
    match advance stack a l with
    | some (stack', a') => assemble stack' a' ls
    | none => none

/-- The tree of a text that is one JSON value. -/
def Tree.parse? (text : String) : Option Tree := do
  assemble [] .value (← lex text.toList)

end Switchboard.Json
