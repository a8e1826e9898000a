import Switchboard.Json.Value

/-! Records in JSON: an object with the record's members, or an array of their values in order. -/
namespace Switchboard.Json

/-- What stands for each field of a record, in the order of the fields. -/
structure Fields (α : Type) where
  positional : Bool
  values : List (Option α)

/-- Members of other names are passed over; none of a field's name may come twice. -/
def Fields.ofMembers? (names : List String) (members : List (String × α)) : Option (Fields α) := do
  let values ← names.mapM fun n =>
    match members.filter (·.1 = n) with
    | [] => some none
    | [m] => some (some m.2)
    | _ => none
  some ⟨false, values⟩

/-- An array may stop early but has no item beyond the last field. -/
def Fields.ofItems? (names : List String) (items : List α) : Option (Fields α) :=
  if items.length ≤ names.length then
    some ⟨true, items.map some ++ List.replicate (names.length - items.length) none⟩
  else none

def Tree.fields? (names : List String) : Tree → Option (Fields Tree)
  | .arr items => Fields.ofItems? names items
  | .obj members => do
    let ms ← members.mapM fun m => (text? m.1).map fun k => (k, m.2)
    Fields.ofMembers? names ms
  | _ => none

def fields? (names : List String) : Json → Option (Fields Json)
  | .arr items => Fields.ofItems? names items
  | .obj members => Fields.ofMembers? names members
  | _ => none

def Tree.string? : Tree → Option String
  | .str s => text? s
  | _ => none

def Tree.int? : Tree → Option Int
  | .num n => match n.value? with
    | some (.int i) => some i
    | _ => none
  | _ => none

def Tree.nat64? (t : Tree) : Option Nat := do
  let i ← t.int?
  if 0 ≤ i then some i.toNat else none

def Tree.int64? (t : Tree) : Option Int := do
  let i ← t.int?
  if i < twoTo 63 then some i else none

def Tree.isNull : Tree → Bool
  | .null => true
  | _ => false

def string? : Json → Option String
  | .str s => some s
  | _ => none

end Switchboard.Json
