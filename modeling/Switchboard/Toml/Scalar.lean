import Switchboard.Decimal.Text
import Switchboard.Toml.Value

/-! The unquoted values of TOML: numbers, truth values, dates and times. -/
namespace Switchboard.Toml

def isBareKeyChar (c : Char) : Bool := c.isAlphanum || c = '_' || c = '-'

/-- Digits of a base; underscores may stand between two of them. -/
def underscored (isDigit : Char → Bool) : List Char → Option (List Char)
  | [] => none
  | [c] => if isDigit c then some [c] else none
  | c :: '_' :: r => if isDigit c then (underscored isDigit r).map (c :: ·) else none
  | c :: r => if isDigit c then (underscored isDigit r).map (c :: ·) else none

def isDec (c : Char) : Bool := '0' ≤ c && c ≤ '9'

private def isHex (c : Char) : Bool := isDec c || ('a' ≤ c && c ≤ 'f') || ('A' ≤ c && c ≤ 'F')

private def digitValue (c : Char) : Nat :=
  if isDec c then c.toNat - 48 else if 'a' ≤ c then c.toNat - 87 else c.toNat - 55

private def natOf (base : Nat) (ds : List Char) : Nat :=
  ds.foldl (fun n c => n * base + digitValue c) 0

private def int64? (i : Int) : Option Toml :=
  if -(twoTo 63) ≤ i ∧ i < twoTo 63 then some (.int i) else none

private def based? (base : Nat) (isDigit : Char → Bool) (s : List Char) : Option Toml := do
  int64? (natOf base (← underscored isDigit s))

/-- Decimal digits without a zero in front of others. -/
private def wholePart? (s : List Char) : Option (List Char) := do
  let ds ← underscored isDec s
  match ds with
  | '0' :: _ :: _ => none
  | ds => some ds

def integer? (s : List Char) : Option Toml :=
  match s with
  | '0' :: 'x' :: r => based? 16 isHex r
  | '0' :: 'o' :: r => based? 8 (fun c => '0' ≤ c && c ≤ '7') r
  | '0' :: 'b' :: r => based? 2 (fun c => c = '0' || c = '1') r
  | s => do
    let (negative, ds) := Double.splitSign s
    let n := natOf 10 (← wholePart? ds)
    int64? (if negative then -n else n)

private def isExponentMark (c : Char) : Bool := c = 'e' || c = 'E'

def float? (s : List Char) : Option Toml := do
  let (_, body) := Double.splitSign s
  let word := String.ofList body
  if word = "inf" ∨ word = "nan" then (Double.parse? s).map .float
  else
    let mantissa := body.takeWhile (!isExponentMark ·)
    let exponent := (body.dropWhile (!isExponentMark ·)).drop 1
    let hasExponent := mantissa.length < body.length
    let whole := mantissa.takeWhile (· != '.')
    let fraction := (mantissa.dropWhile (· != '.')).drop 1
    let hasPoint := whole.length < mantissa.length
    if !hasPoint ∧ !hasExponent then none
    let _ ← wholePart? whole
    if hasPoint then let _ ← underscored isDec fraction
    if hasExponent then let _ ← underscored isDec (Double.splitSign exponent).2
    let d ← Double.parse? (s.filter (· != '_'))
    some (.float d)

private def number? (n : Nat) (s : List Char) : Option (Nat × List Char) :=
  let ds := s.take n
  if ds.length = n ∧ ds.all isDec then some (natOf 10 ds, s.drop n) else none

private def expect? (c : Char) : List Char → Option (List Char)
  | d :: r => if c = d then some r else none
  | [] => none

private def daysIn (year month : Nat) : Nat :=
  if month = 2 then if (year % 4 = 0 ∧ year % 100 ≠ 0) ∨ year % 400 = 0 then 29 else 28
  else if month = 4 ∨ month = 6 ∨ month = 9 ∨ month = 11 then 30 else 31

/-- A date at the front, and the rest. -/
def date? (s : List Char) : Option (List Char × List Char) := do
  let (y, r) ← number? 4 s
  let (m, r) ← number? 2 (← expect? '-' r)
  let (d, r) ← number? 2 (← expect? '-' r)
  if 1 ≤ m ∧ m ≤ 12 ∧ 1 ≤ d ∧ d ≤ daysIn y m then some (s.take 10, r) else none

/-- A time at the front, and the rest. Fractions of a second keep nine places at most. -/
def time? (s : List Char) : Option (List Char × List Char) := do
  let (h, r) ← number? 2 s
  let (m, r) ← number? 2 (← expect? ':' r)
  let (sec, r) ← number? 2 (← expect? ':' r)
  if h < 24 ∧ m < 60 ∧ sec ≤ 60 then
    match r with
    | '.' :: f =>
      let ds := f.takeWhile isDec
      if ds.isEmpty then none
      else
        let kept := ((ds.take 9).reverse.dropWhile (· == '0')).reverse
        let shown := if kept.isEmpty then [] else '.' :: kept
        some (s.take 8 ++ shown, f.dropWhile isDec)
    | r => some (s.take 8, r)
  else none

private def offset? : List Char → Option (List Char)
  | [] => some []
  | ['Z'] => some ['Z']
  | ['z'] => some ['Z']
  | sign :: s => do
    if sign ≠ '+' ∧ sign ≠ '-' then none
    let (h, r) ← number? 2 s
    let (m, r) ← number? 2 (← expect? ':' r)
    if h < 24 ∧ m < 60 ∧ r.isEmpty then some (sign :: s.take 5) else none

/-- A date, a time, or both with or without an offset. -/
def datetime? (s : List Char) : Option Toml :=
  match date? s with
  | some (d, []) => some (.datetime (.ofList d))
  | some (d, sep :: r) => do
    if sep ≠ 'T' ∧ sep ≠ 't' ∧ sep ≠ ' ' then none
    let (t, r) ← time? r
    let o ← offset? r
    some (.datetime (.ofList (d ++ 'T' :: t ++ o)))
  | none => do
    let (t, r) ← time? s
    if r.isEmpty then some (.datetime (.ofList t)) else none

def scalar? (s : List Char) : Option Toml :=
  if s = "true".toList then some (.bool true)
  else if s = "false".toList then some (.bool false)
  else ((integer? s).or (float? s)).or (datetime? s)

end Switchboard.Toml
