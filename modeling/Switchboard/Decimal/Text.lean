import Switchboard.Decimal.Shortest

/-! Decimal numbers as text: reading them to the nearest double, and writing them without an
exponent. -/
namespace Switchboard.Double

def infinity (negative : Bool) : Double := ofMagnitude negative infinite

def notANumber : Double := ofMagnitude false (infinite + twoTo 51)

def isNaN (d : Double) : Bool := infinite < d.magnitude

/-- The nearest double to `digits · 10^exponent`; infinite beyond the range. -/
def ofDecimal (negative : Bool) (digits : Nat) (exponent : Int) : Double :=
  let top := exponent + (decimalDigits digits).length
  if digits = 0 ∨ top < -400 then zero negative
  else if top > 400 then infinity negative
  else
    let a : Ratio := if 0 ≤ exponent then ⟨digits * tenTo exponent.toNat, 1⟩
      else ⟨digits, tenTo (-exponent).toNat⟩
    (nearest? negative a).getD (infinity negative)

private def digitsOf (s : List Char) : Option Nat :=
  if s.all (fun c => '0' ≤ c && c ≤ '9') then
    some (s.foldl (fun n c => n * 10 + (c.toNat - 48)) 0)
  else none

/-- A sign, and what follows it. -/
def splitSign : List Char → Bool × List Char
  | '-' :: r => (true, r)
  | '+' :: r => (false, r)
  | s => (false, s)

private def exponentOf : List Char → Option Int
  | [] => some 0
  | _ :: s => do
    let (negative, ds) := splitSign s
    if ds.isEmpty then none
    let n ← digitsOf ds
    some (if negative then -n else n)

/-- Reads a number with or without sign, point and exponent, or the words for infinity and for what
is no number. One digit is needed at least, before or after the point. -/
def parse? (s : List Char) : Option Double := do
  let (negative, s) := splitSign s
  let word := String.ofList (s.map Char.toLower)
  if word = "inf" ∨ word = "infinity" then some (infinity negative)
  else if word = "nan" then some notANumber
  else
    let isExp (c : Char) : Bool := c = 'e' || c = 'E'
    let mantissa := s.takeWhile (!isExp ·)
    let exponent ← exponentOf (s.dropWhile (!isExp ·))
    let whole := mantissa.takeWhile (· != '.')
    let fraction := (mantissa.dropWhile (· != '.')).drop 1
    if whole.isEmpty ∧ fraction.isEmpty then none
    let digits ← digitsOf (whole ++ fraction)
    some (ofDecimal negative digits (exponent - fraction.length))

/-- The fewest digits that read back, without an exponent and without a point if there is no
fraction. -/
def plain (d : Double) : String :=
  let sign := if d.isNegative then "-" else ""
  if d.isNaN then "NaN"
  else if d.magnitude = infinite then sign ++ "inf"
  else if d.magnitude = 0 then sign ++ "0"
  else
    let s := Decimal.shortest d
    let ds := s.digits.map fun n => Char.ofNat (48 + n)
    let zeros (n : Nat) : List Char := List.replicate n '0'
    if s.exponent < 0 then sign ++ .ofList ('0' :: '.' :: zeros (-s.exponent - 1).toNat ++ ds)
    else
      let places := s.exponent.toNat + 1
      let whole := ds.take places ++ zeros (places - ds.length)
      let rest := ds.drop places
      sign ++ .ofList (whole ++ if rest.isEmpty then [] else '.' :: rest)

/-- The nearest natural, halves away from zero; negative numbers count as zero, and so does what is no
number. -/
def roundToNat (d : Double) : Nat :=
  if d.isNaN || d.isNegative then 0
  else if d.magnitude = infinite then twoTo 1024
  else d.abs.roundUp

end Switchboard.Double
