import Switchboard.Json.Record

/-! Reading JSON in which anything may be left out: what is missing or of another kind has a default. -/
namespace Switchboard.Json

def field (k : String) (v : Json) : Json := (v.get? k).getD .null

def toText (v : Json) : String := (string? v).getD ""

def toNat? : Json → Option Nat
  | .num (.int i) => if 0 ≤ i then some i.toNat else none
  | _ => none

def natOr (default : Nat) (v : Json) : Nat := (toNat? v).getD default

def toInt : Json → Int
  | .num (.int i) => i
  | _ => 0

def toBool : Json → Bool
  | .bool b => b
  | _ => false

/-- The items of an array; anything else has none. -/
def items : Json → List Json
  | .arr vs => vs
  | _ => []

/-- The members of an object; anything else has none. -/
def members : Json → List (String × Json)
  | .obj ms => ms
  | _ => []

def isNull : Json → Bool
  | .null => true
  | _ => false

def item (i : Nat) (v : Json) : Json := (items v)[i]?.getD .null

def textAt (k : String) (v : Json) : String := toText (field k v)

def textsAt (k : String) (v : Json) : List String := (items (field k v)).map toText

def toFloat32 : Json → Float32
  | .num n => n.toFloat32
  | _ => 0

end Switchboard.Json
