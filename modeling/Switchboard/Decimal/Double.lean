/-! Doubles by their bits, and the double nearest to a ratio of naturals. -/
namespace Switchboard

/-- `2^n`. -/
def twoTo (n : Nat) : Nat := Nat.pow 2 n

/-- `10^n`. -/
def tenTo (n : Nat) : Nat := Nat.pow 10 n

/-- A 64-bit binary float, by its bits. -/
structure Double where
  bits : UInt64
deriving DecidableEq, Repr

/-- A non-negative ratio; the denominators in use are positive. -/
structure Ratio where
  num : Nat
  den : Nat

namespace Ratio

def ofNat (n : Nat) : Ratio := ⟨n, 1⟩

/-- `n · 2^e`. -/
def scaled (n : Nat) (e : Int) : Ratio :=
  if 0 ≤ e then ⟨n * twoTo e.toNat, 1⟩ else ⟨n, twoTo (-e).toNat⟩

def mul (a b : Ratio) : Ratio := ⟨a.num * b.num, a.den * b.den⟩

def div (a b : Ratio) : Ratio := ⟨a.num * b.den, a.den * b.num⟩

/-- The nearest natural; a half goes to the even neighbour. -/
def round (a : Ratio) : Nat :=
  let q := a.num / a.den
  let r := a.num % a.den
  if 2 * r > a.den ∨ (2 * r = a.den ∧ q % 2 = 1) then q + 1 else q

/-- The nearest natural; a half goes up. -/
def roundUp (a : Ratio) : Nat := (2 * a.num + a.den) / (2 * a.den)

end Ratio

namespace Double

def isNegative (d : Double) : Bool := d.bits.toNat / twoTo 63 == 1

/-- The bits without the sign. -/
def magnitude (d : Double) : Nat := d.bits.toNat % twoTo 63

/-- The magnitude of the infinities; larger ones are not numbers. -/
def infinite : Nat := 2047 * twoTo 52

/-- `(m, e)` with absolute value `m · 2^e`, where `m < 2^53`. -/
def parts (d : Double) : Nat × Int :=
  let e : Nat := d.magnitude / twoTo 52
  let m : Nat := d.magnitude % twoTo 52
  if e = 0 then (m, -1074) else (m + twoTo 52, (e : Int) - 1075)

/-- The absolute value. -/
def abs (d : Double) : Ratio := Ratio.scaled d.parts.1 d.parts.2

/-- The exponent of the unit in which the double nearest to a positive ratio is counted. -/
def unitExponent (a : Ratio) : Int :=
  let guess : Int := (a.num.log2 : Int) - a.den.log2 - 52
  let scaled := a.div (Ratio.scaled 1 guess)
  max (if scaled.num / scaled.den < twoTo 52 then guess - 1 else guess) (-1074)

/-- The magnitude of the nearest double, halves to even; at least `infinite` beyond the range. -/
def nearestMagnitude (a : Ratio) : Nat :=
  if a.num = 0 then 0
  else
    let e := unitExponent a
    (e + 1074).toNat * twoTo 52 + (a.div (Ratio.scaled 1 e)).round

def ofMagnitude (negative : Bool) (n : Nat) : Double :=
  ⟨UInt64.ofNat (n + if negative then twoTo 63 else 0)⟩

/-- The nearest double to a non-negative ratio, with a sign; none beyond the finite range. -/
def nearest? (negative : Bool) (a : Ratio) : Option Double :=
  let n := nearestMagnitude a
  if n < infinite then some (ofMagnitude negative n) else none

def zero (negative : Bool) : Double := ofMagnitude negative 0

/-- `digits · 10^exponent`, where `digits`, the power and their product or quotient are each rounded
to a double. Powers beyond `10^308` are divided out in two steps. -/
def ofScaled? (negative : Bool) (digits : Nat) (exponent : Int) : Option Double := do
  let f ← nearest? negative (Ratio.ofNat digits)
  let power (k : Nat) : Option Double := nearest? false (Ratio.ofNat (tenTo k))
  if digits = 0 then some (zero negative)
  else if exponent > 308 then none
  else if 0 ≤ exponent then nearest? negative (f.abs.mul (← power exponent.toNat).abs)
  else if -308 ≤ exponent then nearest? negative (f.abs.div (← power (-exponent).toNat).abs)
  else if -616 ≤ exponent then do
    let g ← nearest? negative (f.abs.div (← power 308).abs)
    nearest? negative (g.abs.div (← power (-exponent - 308).toNat).abs)
  else some (zero negative)

end Double

end Switchboard
