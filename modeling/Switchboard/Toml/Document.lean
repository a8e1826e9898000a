import Switchboard.Toml.Reader

/-! TOML documents: the table that the lines of a document describe. -/
namespace Switchboard.Toml

/-- How a table came to be: on the way to another one, by a path with points, or by its own header. -/
inductive Origin where
  | passed
  | dotted
  | header
deriving DecidableEq, Repr

/-- A document while it is read. -/
inductive Node where
  | value (v : Toml)
  | table (origin : Origin) (entries : List (String × Node))
  | elements (tables : List (List (String × Node)))
deriving Inhabited

namespace Node

abbrev Entries := List (String × Node)

def put (k : String) (n : Node) : Entries → Entries
  | [] => [(k, n)]
  | e :: es => if e.1 = k then (k, n) :: es else e :: put k n es

/-- Goes down a path of headers; of an array of tables the last one is meant. -/
def descend : List String → (Entries → Option Entries) → Entries → Option Entries
  | [], f, es => f es
  | k :: ks, f, es =>
    match es.lookup k with
    | none => do some (put k (.table .passed (← descend ks f [])) es)
    | some (.table o inner) => do some (put k (.table o (← descend ks f inner)) es)
    | some (.elements tables) => do
      let last ← tables.getLast?
      some (put k (.elements (tables.dropLast ++ [← descend ks f last])) es)
    | some (.value _) => none

/-- Goes down a path with points from the table of the current header. Tables that have a header of
their own, and the elements of arrays, are not entered; a value is put only into a table that such a
path made. -/
def assign : (path : List String) → Toml → Entries → Option Entries
  | [], _, _ => none
  | [k], v, es => if (es.lookup k).isSome then none else some (put k (.value v) es)
  | k :: ks, v, es =>
    match es.lookup k with
    | none => do some (put k (.table .dotted (← assign ks v [])) es)
    | some (.table .dotted inner) => do some (put k (.table .dotted (← assign ks v inner)) es)
    | some (.table .passed inner) =>
      if ks.length = 1 then none
      else do some (put k (.table .passed (← assign ks v inner)) es)
    | some _ => none

/-- The entry that a header opens; a table may have only one header. -/
def openTable (k : String) (es : Entries) : Option Entries :=
  match es.lookup k with
  | none => some (put k (.table .header []) es)
  | some (.table .passed inner) => some (put k (.table .header inner) es)
  | some _ => none

def openElement (k : String) (es : Entries) : Option Entries :=
  match es.lookup k with
  | none => some (put k (.elements [[]]) es)
  | some (.elements tables) => some (put k (.elements (tables ++ [[]])) es)
  | some _ => none

/-- The last key of a path, and the keys before it. -/
def splitLast (path : List String) : Option (List String × String) := do
  some (path.dropLast, ← path.getLast?)

/-- Adds a statement; the current header's path goes along. -/
def addStatement : List String × Entries → Statement → Option (List String × Entries)
  | (_, root), .header path => do
    let (above, k) ← splitLast path
    some (path, ← descend above (openTable k) root)
  | (_, root), .element path => do
    let (above, k) ← splitLast path
    some (path, ← descend above (openElement k) root)
  | (current, root), .assign path v => do
    some (current, ← descend current (assign path v) root)

mutual
def toToml : Node → Toml
  | .value v => v
  | .table _ es => .table (entriesToToml es)
  | .elements tables => .arr (tablesToToml tables)

def entriesToToml : Entries → List (String × Toml)
  | [] => []
  | (k, n) :: es => (k, toToml n) :: entriesToToml es

def tablesToToml : List Entries → List Toml
  | [] => []
  | t :: ts => .table (entriesToToml t) :: tablesToToml ts
end

end Node

/-- The entries of a document's table; none if the text is no TOML. -/
def parse? (text : String) : Option (List (String × Toml)) := do
  let (_, root) ← (← statements? text).foldlM Node.addStatement ([], [])
  some (Node.entriesToToml root)

end Switchboard.Toml
