/-! Moments of universal time as text. -/
namespace Switchboard.Timestamp

/-- Year, month and day of a day counted from the first of January 1970. Years are taken to begin in
March, so that a leap day is the last day of its year. -/
def date (day : Nat) : Nat × Nat × Nat :=
  let z := day + 719468
  let era := z / 146097
  let dayOfEra := z % 146097
  let yearOfEra := (dayOfEra - dayOfEra / 1460 + dayOfEra / 36524 - dayOfEra / 146096) / 365
  let dayOfYear := dayOfEra - (365 * yearOfEra + yearOfEra / 4 - yearOfEra / 100)
  let m := (5 * dayOfYear + 2) / 153
  let month := if m < 10 then m + 3 else m - 9
  (yearOfEra + era * 400 + (if month ≤ 2 then 1 else 0), month, dayOfYear - (153 * m + 2) / 5 + 1)

/-- At least `width` digits. -/
def padded (width n : Nat) : String :=
  let ds := Nat.toDigits 10 n
  .ofList (List.replicate (width - ds.length) '0' ++ ds)

/-- Fractions of a second in thousandths, millionths or billionths, whichever suffice. -/
def fraction (nanos : Nat) : String :=
  if nanos = 0 then ""
  else if nanos % 1000000 = 0 then "." ++ padded 3 (nanos / 1000000)
  else if nanos % 1000 = 0 then "." ++ padded 6 (nanos / 1000)
  else "." ++ padded 9 nanos

/-- The moment so many seconds after the start of 1970, and a fraction of a second. -/
def text (seconds nanos : Nat) : String :=
  let (year, month, day) := date (seconds / 86400)
  let s := seconds % 86400
  s!"{padded 4 year}-{padded 2 month}-{padded 2 day}T{padded 2 (s / 3600)}:" ++
    s!"{padded 2 (s / 60 % 60)}:{padded 2 (s % 60)}{fraction nanos}+00:00"

example : date 0 = (1970, 1, 1) ∧ date 11016 = (2000, 2, 29) ∧ date 11017 = (2000, 3, 1) := by decide

end Switchboard.Timestamp
