import Switchboard.Decimal.Shortest
import Switchboard.Json.Lexeme

/-! JSON numbers: integers of 64 bits, and doubles for everything else. -/
namespace Switchboard.Json

inductive Number where
  | int (i : Int)
  | float (d : Double)
deriving DecidableEq, Repr

/-- The first digits that together stay below `2^64`, read on from `n`, and how many are left out. -/
def gather (n : Nat) : List Nat → Nat × Nat
  | [] => (n, 0)
  | d :: ds => if n * 10 + d < twoTo 64 then gather (n * 10 + d) ds else (n, ds.length + 1)

/-- A literal without point and exponent is an integer if it fits 64 bits, signed or unsigned, and is
not `-0`. Otherwise its leading digits are scaled; none beyond the range of doubles. -/
def Numeral.value? (n : Numeral) : Option Number :=
  let (whole, extra) := gather 0 n.whole
  let float (digits : Nat) (exponent : Int) : Option Number :=
    (Double.ofScaled? n.negative digits exponent).map .float
  if n.fraction = [] ∧ n.exponent = none ∧ extra = 0 then
    if !n.negative then some (.int whole)
    else if 0 < whole ∧ whole ≤ twoTo 63 then some (.int (-whole))
    else float whole 0
  else
    let (digits, unread) := gather whole n.fraction
    float digits (extra - (n.fraction.length - unread : Nat) + n.exponent.getD 0)

/-- The nearest single, by way of the nearest double. -/
def Number.toFloat32 : Number → Float32
  | .int i => (if i < 0 then -(Float.ofNat i.natAbs) else Float.ofNat i.toNat).toFloat32
  | .float d => (Float.ofBits d.bits).toFloat32

def digitChars (ds : List Nat) : List Char := ds.map fun d => Char.ofNat (48 + d)

def natChars (n : Nat) : List Char := Nat.toDigits 10 n

def intChars (i : Int) : List Char :=
  if i < 0 then '-' :: natChars i.natAbs else natChars i.natAbs

/-- From `0.00001` up to 16 digits before the point all places are written, with one after the point
at least; other numbers have an exponent with its sign. -/
def decimalChars (d : Decimal) : List Char :=
  let ds := digitChars d.digits
  let zeros (n : Nat) : List Char := List.replicate n '0'
  if -5 ≤ d.exponent ∧ d.exponent < 0 then '0' :: '.' :: zeros (-d.exponent - 1).toNat ++ ds
  else if 0 ≤ d.exponent ∧ d.exponent ≤ 15 then
    let places := d.exponent.toNat + 1
    let whole := ds.take places ++ zeros (places - ds.length)
    whole ++ '.' :: (if ds.length ≤ places then ['0'] else ds.drop places)
  else
    let sign := if d.exponent < 0 then '-' else '+'
    let rest := ds.drop 1
    ds.take 1 ++ (if rest = [] then [] else '.' :: rest)
      ++ 'e' :: sign :: natChars d.exponent.natAbs

def doubleChars (d : Double) : List Char :=
  let sign := if d.isNegative then ['-'] else []
  if d.magnitude = 0 then sign ++ ['0', '.', '0'] else sign ++ decimalChars (.shortest d)

def Number.chars : Number → List Char
  | .int i => intChars i
  | .float d => doubleChars d

end Switchboard.Json
