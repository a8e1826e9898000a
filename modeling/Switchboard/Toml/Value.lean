import Switchboard.Decimal.Double

/-! TOML values. -/
namespace Switchboard

inductive Toml where
  | str (s : String)
  | int (i : Int)
  | float (d : Double)
  | bool (b : Bool)
  /-- A date, a time or both, as text. -/
  | datetime (text : String)
  | arr (items : List Toml)
  | table (entries : List (String × Toml))
deriving Repr, Inhabited

namespace Toml

/-- One line of a document: a table's header, the header of a further element of an array of tables,
or a key with its value. Keys are paths. -/
inductive Statement where
  | header (path : List String)
  | element (path : List String)
  | assign (path : List String) (v : Toml)
deriving Repr

end Toml
end Switchboard
