import Switchboard.Decimal.Text
import Switchboard.Dict
import Switchboard.Text.Cut
import Switchboard.Text.Lowercase
import Switchboard.Toml.Document

/-! Settings from several sources, one over the other, and how a setting is read as a value of the
kind that is wanted. -/
namespace Switchboard

/-- A setting as a source gives it. -/
inductive Setting where
  | bool (b : Bool)
  | int (i : Int)
  | float (d : Double)
  | text (s : String)
  | list (items : List Setting)
  | group (entries : List (String × Setting))
deriving Repr, Inhabited

namespace Setting

abbrev Group := Dict Setting

mutual
def ofToml : Toml → Setting
  | .str s => .text s
  | .int i => .int i
  | .float d => .float d
  | .bool b => .bool b
  | .datetime t => .text t
  | .arr items => .list (ofTomls items)
  | .table entries => .group (ofEntries entries)

def ofTomls : List Toml → List Setting
  | [] => []
  | v :: vs => ofToml v :: ofTomls vs

def ofEntries : List (String × Toml) → Group
  | [] => []
  | (k, v) :: es => (k, ofToml v) :: ofEntries es
end

/-- The entries of a group; anything else has none. -/
def entriesOf : Option Setting → Group
  | some (.group g) => g
  | _ => []

mutual
/-- Sets a key, in lower case. A group is laid over the group that is there, entry by entry, so that
one without entries changes nothing where anything is there; anything else replaces what is there. -/
def assign (k : String) (v : Setting) (g : Group) : Group :=
  let k := Text.lower k
  match v with
  | .group [] => if (g.get? k).isSome then g else g.put k (.group [])
  | .group es => g.put k (.group (assignAll es (entriesOf (g.get? k))))
  | v => g.put k v

def assignAll (es : List (String × Setting)) (g : Group) : Group :=
  match es with
  | [] => g
  | (k, v) :: es => assignAll es (assign k v g)
end

private def isPathChar (c : Char) : Bool := c.isAlphanum || c = '_' || c = '-'

/-- The keys of a path with points, or the whole text as one key if it is no path. -/
def pathOf (key : String) : List String :=
  let parts := Chars.splitBy (· == '.') key.toList
  if parts.all fun p => !p.isEmpty && p.all isPathChar then parts.map String.ofList else [key]

/-- Sets the value at the end of a path. -/
def assignPath : List String → Setting → Group → Group
  | [], _, g => g
  | [k], v, g => assign k v g
  | k :: ks, v, g =>
    let k := Text.lower k
    g.put k (.group (assignPath ks v (entriesOf (g.get? k))))

/-- Lays a source over the settings so far. -/
def overlay (g : Group) (source : List (String × Setting)) : Group :=
  source.foldl (fun g e => assignPath (pathOf e.1) e.2 g) g

/-! Settings from the environment. -/

private def int64? (s : List Char) : Option Int := do
  let (negative, ds) := Double.splitSign s
  if ds.isEmpty || !(ds.all fun c => '0' ≤ c && c ≤ '9') then none
  let n : Nat := ds.foldl (fun n c => n * 10 + (c.toNat - 48)) 0
  let i : Int := if negative then -n else n
  if -(twoTo 63) ≤ i ∧ i < twoTo 63 then some i else none

/-- A truth value, an integer or a float if the text is one. -/
def ofWord (word : String) : Setting :=
  let lower := Text.lower word
  if lower = "true" then .bool true
  else if lower = "false" then .bool false
  else match int64? word.toList with
    | some i => .int i
    | none => match Double.parse? word.toList with
      | some d => .float d
      | none => .text word

/-- The mark of the variables that are settings. -/
def variableMark : String := "gateway__"

private def pointed : List Char → List Char
  | '_' :: '_' :: r => '.' :: pointed r
  | c :: r => c :: pointed r
  | [] => []

/-- The setting in a variable: what follows the mark, with a point for every two underscores. -/
def ofVariable? (name value : String) : Option (String × Setting) := do
  let rest ← Text.after? variableMark (Text.lower name)
  some (.ofList (pointed rest.toList), ofWord value)

/-! Reading settings. -/

def toText? : Setting → Option String
  | .bool b => some (if b then "true" else "false")
  | .int i => some (toString i)
  | .float d => some d.plain
  | .text s => some s
  | _ => none

private def switchedOn (s : String) : Bool := s = "true" || s = "on" || s = "yes"

private def switchedOff (s : String) : Bool := s = "false" || s = "off" || s = "no"

def toBool? : Setting → Option Bool
  | .bool b => some b
  | .int i => some (i ≠ 0)
  | .float d => some (d.magnitude ≠ 0)
  | .text s =>
    let w := Text.lower s
    if switchedOn w || w = "1" then some true
    else if switchedOff w || w = "0" then some false
    else none
  | _ => none

private def nat64? (s : List Char) : Option Nat := do
  let ds := if s.head? = some '+' then s.drop 1 else s
  if ds.isEmpty || !(ds.all fun c => '0' ≤ c && c ≤ '9') then none
  let n : Nat := ds.foldl (fun n c => n * 10 + (c.toNat - 48)) 0
  if n < twoTo 64 then some n else none

/-- A natural of 64 bits. Floats are rounded into the range, negative integers are none. -/
def toNat? : Setting → Option Nat
  | .bool b => some (if b then 1 else 0)
  | .int i => if 0 ≤ i then some i.toNat else none
  | .float d => some (min d.roundToNat (twoTo 64 - 1))
  | .text s =>
    let w := Text.lower s
    if switchedOn w then some 1
    else if switchedOff w then some 0
    else nat64? s.toList
  | _ => none

/-- One of several names, in any case; a group of one entry stands for its key. -/
def toName? (names : List String) : Setting → Option String
  | .text s => names.find? fun n => Text.lower n = Text.lower s
  | .group [(k, _)] => names.find? fun n => Text.lower n = Text.lower k
  | _ => none

def toGroup? : Setting → Option Group
  | .group g => some g
  | _ => none

/-- An entry read by `read`, or the default if it is missing. -/
def Group.read (g : Group) (key : String) (read : Setting → Option α) (default : α) : Option α :=
  match g.get? key with
  | none => some default
  | some v => read v

/-- An entry that may be missing. -/
def Group.read? (g : Group) (key : String) (read : Setting → Option α) : Option (Option α) :=
  match g.get? key with
  | none => some none
  | some v => (read v).map some

end Setting
end Switchboard
