import Switchboard.Json.Number
import Switchboard.Json.Tree

/-! JSON values: numbers read, escapes resolved, members sorted by key. -/
namespace Switchboard

inductive Json where
  | null
  | bool (b : Bool)
  | num (n : Json.Number)
  | str (s : String)
  | arr (items : List Json)
  | obj (members : List (String × Json))
deriving Repr, Inhabited

namespace Json

/-- Adds a member to members in order of their keys, in the place of an equal key. -/
def insert (k : String) (v : α) : List (String × α) → List (String × α)
  | [] => [(k, v)]
  | (k', v') :: ms =>
    if k < k' then (k, v) :: (k', v') :: ms
    else if k = k' then (k, v) :: ms
    else (k', v') :: insert k v ms

theorem lookup_insert_self (k : String) (v : α) (ms : List (String × α)) :
    (insert k v ms).lookup k = some v := by
  induction ms with
  | nil => rw [insert, List.lookup_cons_self]
  | cons m ms ih =>
    rw [insert]
    split
    · exact List.lookup_cons_self
    · split
      · exact List.lookup_cons_self
      next hne => rw [List.lookup_cons, beq_false_of_ne hne, ih]

theorem lookup_insert_of_ne {k k' : String} (h : k' ≠ k) (v : α) (ms : List (String × α)) :
    (insert k v ms).lookup k' = ms.lookup k' := by
  have hcons (ms : List (String × α)) : ((k, v) :: ms).lookup k' = ms.lookup k' := by
    rw [List.lookup_cons, beq_false_of_ne h]
  induction ms with
  | nil => exact hcons []
  | cons m ms ih =>
    rw [insert]
    split
    · exact hcons _
    · split
      next heq => rw [hcons, List.lookup_cons, ← heq, beq_false_of_ne h]
      next => rw [List.lookup_cons, List.lookup_cons, ih]

/-- The members in order of their keys; of equal keys the last one counts. -/
def sorted (ms : List (String × α)) : List (String × α) :=
  ms.foldl (fun acc m => insert m.1 m.2 acc) []

def object (ms : List (String × Json)) : Json := .obj (sorted ms)

def nat (n : Nat) : Json := .num (.int n)

def int (i : Int) : Json := .num (.int i)

/-- Two escapes in a row may be the halves of one character; a half by itself is no character. -/
def textOf? : List Piece → Option (List Char)
  | [] => some []
  | .char c :: ps => (textOf? ps).map (c :: ·)
  | .unit h :: .unit l :: ps =>
    if 0xD800 ≤ h ∧ h < 0xDC00 then
      if 0xDC00 ≤ l ∧ l < 0xE000 then
        (textOf? ps).map (Char.ofNat (0x10000 + (h - 0xD800) * 0x400 + (l - 0xDC00)) :: ·)
      else none
    else if 0xDC00 ≤ h ∧ h < 0xE000 then none
    else (textOf? (.unit l :: ps)).map (Char.ofNat h :: ·)
  | .unit h :: ps =>
    if 0xD800 ≤ h ∧ h < 0xE000 then none else (textOf? ps).map (Char.ofNat h :: ·)

def text? (ps : List Piece) : Option String := (textOf? ps).map String.ofList

mutual
/-- The value of a tree with at most `depth` containers inside each other. -/
def ofTree? (depth : Nat) : Tree → Option Json
  | .null => some .null
  | .bool b => some (.bool b)
  | .num n => n.value?.map .num
  | .str s => (text? s).map .str
  | .arr items =>
    match depth with
    | 0 => none
    | depth + 1 => (ofItems? depth items).map .arr
  | .obj members =>
    match depth with
    | 0 => none
    | depth + 1 => (ofMembers? depth members).map object

def ofItems? (depth : Nat) : List Tree → Option (List Json)
  | [] => some []
  | t :: ts => do
    let v ← ofTree? depth t
    some (v :: (← ofItems? depth ts))

def ofMembers? (depth : Nat) : List (List Piece × Tree) → Option (List (String × Json))
  | [] => some []
  | (k, t) :: ms => do
    let k ← text? k
    let v ← ofTree? depth t
    some ((k, v) :: (← ofMembers? depth ms))
end

/-- The number of containers a text may have inside each other. -/
def maxDepth : Nat := 127

def parse? (text : String) : Option Json := do ofTree? maxDepth (← Tree.parse? text)

def get? (k : String) : Json → Option Json
  | .obj ms => ms.lookup k
  | _ => none

end Json
end Switchboard
