import Switchboard.Decimal.Double

/-! The shortest decimal that reads back as a given double. -/
namespace Switchboard

/-- The decimal `0.d₁d₂… · 10^(exponent + 1)`, that is, `d₁` stands for `10^exponent`. -/
structure Decimal where
  digits : List Nat
  exponent : Int
deriving DecidableEq, Repr

def decimalDigits (n : Nat) : List Nat := (Nat.toDigits 10 n).map fun c => c.toNat - 48

theorem decimalDigits_ne_nil (n : Nat) : decimalDigits n ≠ [] :=
  mt List.map_eq_nil_iff.mp Nat.toDigits_ne_nil

theorem range_of_mem_toDigits {n : Nat} {c : Char} (h : c ∈ Nat.toDigits 10 n) :
    48 ≤ c.toNat ∧ c.toNat ≤ 57 :=
  Char.isDigit_iff_toNat.mp (Nat.isDigit_of_mem_toDigits (by decide) (by decide) h)

theorem lt_ten_of_mem_decimalDigits {n d : Nat} (h : d ∈ decimalDigits n) : d < 10 := by
  obtain ⟨c, hc, rfl⟩ := List.mem_map.mp h
  have hrange := range_of_mem_toDigits hc
  omega

theorem decimalDigits_eq (n : Nat) :
    decimalDigits n = if n < 10 then [n] else decimalDigits (n / 10) ++ [n % 10] := by
  rw [decimalDigits, Nat.toDigits_eq_if (by decide)]
  split
  next h => rw [List.map_singleton, Nat.toNat_digitChar_sub_48_of_lt_ten h]
  next =>
    rw [List.map_append, List.map_singleton,
      Nat.toNat_digitChar_sub_48_of_lt_ten (Nat.mod_lt n (by decide)), decimalDigits]

/-- A positive number does not begin with a zero. -/
theorem ne_zero_of_head?_decimalDigits {n d : Nat} (hn : 0 < n)
    (h : d ∈ (decimalDigits n).head?) : d ≠ 0 := by
  induction n using Nat.strongRecOn with
  | ind n ih =>
    rw [decimalDigits_eq] at h
    split at h
    next =>
      obtain rfl := Option.some.inj h
      exact Nat.ne_of_gt hn
    next hlt =>
      obtain ⟨first, rest, hdigits⟩ := List.exists_cons_of_ne_nil (decimalDigits_ne_nil (n / 10))
      refine ih (n / 10) (by omega) (by omega) ?_
      rw [hdigits] at h ⊢
      exact h

namespace Decimal

/-- The exponent of the first significant digit of a positive ratio. -/
def leadingExponent (a : Ratio) : Int :=
  if a.den ≤ a.num then ((decimalDigits (a.num / a.den)).length : Int) - 1
  else
    let l := (decimalDigits (a.den / a.num)).length
    if a.num * tenTo (l - 1) = a.den then -((l : Int) - 1) else -(l : Int)

/-- `n · 10^e` without its trailing zeros. -/
def ofScaled (n : Nat) (e : Int) : Decimal :=
  let ds := decimalDigits n
  ⟨(ds.reverse.dropWhile (· == 0)).reverse, e + ds.length - 1⟩

/-- The ends of the interval of reals that round to the double `m · 2^e`, and whether they belong
to it: four times the mantissa less and plus half a unit. -/
def interval (m : Nat) (e : Int) : Ratio × Ratio × Bool :=
  let below := if m = twoTo 52 ∧ e > -1074 then 1 else 2
  (Ratio.scaled (4 * m - below) (e - 2), Ratio.scaled (4 * m + 2) (e - 2), m % 2 == 0)

/-- Whether a ratio is in the interval. -/
def inside (ends : Ratio × Ratio × Bool) (a : Ratio) : Bool :=
  let (lo, hi, closed) := ends
  let l := lo.num * a.den
  let a₁ := a.num * lo.den
  let a₂ := a.num * hi.den
  let h := hi.num * a.den
  if closed then l ≤ a₁ && a₂ ≤ h else l < a₁ && a₂ < h

/-- The neighbour of the value with `n` digits that reads back; of two the nearer one. -/
def withDigits? (value : Ratio) (ends : Ratio × Ratio × Bool) (n : Nat) : Option Decimal :=
  let e : Int := leadingExponent value - n + 1
  let unit : Ratio := if 0 ≤ e then ⟨tenTo e.toNat, 1⟩ else ⟨1, tenTo (-e).toNat⟩
  let count := value.div unit
  let lo := count.num / count.den
  let okLo := inside ends (unit.mul (.ofNat lo))
  let okHi := inside ends (unit.mul (.ofNat (lo + 1)))
  if okLo && okHi then some (ofScaled count.round e)
  else if okLo then some (ofScaled lo e)
  else if okHi then some (ofScaled (lo + 1) e)
  else none

/-- The absolute value of a finite double other than zero in the fewest digits that read back. -/
def shortest (d : Double) : Decimal :=
  let ends := interval d.parts.1 d.parts.2
  ((List.range 17).findSome? fun n => withDigits? d.abs ends (n + 1)).getD ⟨[], 0⟩

/-- Digits of a number that is not zero, the first of which is none. -/
structure Significant (ds : List Nat) : Prop where
  ne_nil : ds ≠ []
  head : ∀ d ∈ ds.head?, d ≠ 0
  digit : ∀ d ∈ ds, d < 10

theorem significant_ofScaled {n : Nat} (hn : 0 < n) (e : Int) :
    Significant (ofScaled n e).digits := by
  have hhead := fun d => ne_zero_of_head?_decimalDigits (d := d) hn
  obtain ⟨first, rest, hdigits⟩ := List.exists_cons_of_ne_nil (decimalDigits_ne_nil n)
  have hfirst : first ≠ 0 := hhead first (by rw [hdigits]; rfl)
  have hprefix : (ofScaled n e).digits <+: first :: rest := by
    rw [ofScaled, ← hdigits, ← List.reverse_suffix, List.reverse_reverse]
    exact List.dropWhile_suffix _
  have hne : (ofScaled n e).digits ≠ [] := by
    dsimp only [ofScaled]
    rw [hdigits, Ne, List.reverse_eq_nil_iff, List.reverse_cons, List.dropWhile_append]
    split
    · rw [List.dropWhile_cons_of_neg (by simpa using hfirst)]
      exact List.cons_ne_nil _ _
    · exact List.append_ne_nil_of_right_ne_nil _ (List.cons_ne_nil _ _)
  obtain ⟨d, ds, hds⟩ := List.exists_cons_of_ne_nil hne
  rw [hds] at hprefix ⊢
  obtain ⟨rfl, -⟩ := List.cons_prefix_cons.mp hprefix
  refine ⟨nofun, fun c hc => Option.some.inj hc ▸ hfirst, fun c hc => ?_⟩
  refine lt_ten_of_mem_decimalDigits (n := n) ?_
  rw [hdigits]
  exact hprefix.mem hc

/-- What reads back as a positive number is not zero. -/
theorem pos_of_inside {ends : Ratio × Ratio × Bool} {unit : Ratio} {n : Nat}
    (hends : 0 < ends.1.num) (hunit : 0 < unit.den)
    (h : inside ends (unit.mul (.ofNat n)) = true) : 0 < n := by
  refine Nat.pos_of_ne_zero ?_
  rintro rfl
  have hpos := Nat.mul_pos hends (Nat.mul_pos hunit Nat.one_pos)
  dsimp only [inside, Ratio.mul, Ratio.ofNat] at h
  rw [Nat.mul_zero, Nat.zero_mul] at h
  split at h
  · rw [Bool.and_eq_true, decide_eq_true_iff] at h
    exact absurd h.1 (Nat.not_le.mpr hpos)
  · rw [Bool.and_eq_true, decide_eq_true_iff] at h
    exact absurd h.1 (Nat.not_lt_zero _)

theorem significant_of_withDigits? {value : Ratio} {ends : Ratio × Ratio × Bool} {n : Nat}
    {d : Decimal} (hends : 0 < ends.1.num) (h : withDigits? value ends n = some d) :
    Significant d.digits := by
  unfold withDigits? at h
  dsimp only at h
  generalize hunit : (if 0 ≤ leadingExponent value - n + 1 then (⟨_, 1⟩ : Ratio) else _) = unit at h
  have hden : 0 < unit.den := by
    rw [← hunit]
    split
    · exact Nat.one_pos
    · exact Nat.pow_pos (by decide)
  split at h
  next hboth =>
    cases h
    have hpos := pos_of_inside hends hden (Bool.and_eq_true _ _ ▸ hboth).1
    refine significant_ofScaled (Nat.lt_of_lt_of_le hpos ?_) _
    dsimp only [Ratio.round]
    split
    · exact Nat.le_succ _
    · exact Nat.le_refl _
  next =>
    split at h
    next hlo =>
      cases h
      exact significant_ofScaled (pos_of_inside hends hden hlo) _
    next =>
      split at h
      · cases h
        exact significant_ofScaled (Nat.succ_pos _) _
      · cases h

theorem pos_interval {m : Nat} (hm : 0 < m) (e : Int) : 0 < (interval m e).1.num := by
  have hlow : 0 < 4 * m - if m = twoTo 52 ∧ e > -1074 then 1 else 2 := by
    split <;> omega
  dsimp only [interval, Ratio.scaled]
  split
  · exact Nat.mul_pos hlow (Nat.pow_pos (by decide))
  · exact hlow

theorem pos_parts {d : Double} (h : d.magnitude ≠ 0) : 0 < d.parts.1 := by
  have htwo : 0 < twoTo 52 := Nat.pow_pos (by decide)
  dsimp only [Double.parts]
  split
  next hzero =>
    rw [Nat.mod_eq_of_lt ((Nat.div_eq_zero_iff_lt htwo).mp hzero)]
    exact Nat.pos_of_ne_zero h
  next => exact Nat.lt_of_lt_of_le htwo (Nat.le_add_left _ _)

/-- What is written for a number that is not zero begins with none, if it has digits at all. -/
theorem significant_shortest {d : Double} (h : d.magnitude ≠ 0) :
    Significant (shortest d).digits ∨ shortest d = ⟨[], 0⟩ := by
  unfold shortest
  dsimp only
  cases hfound : (List.range 17).findSome? fun n =>
      withDigits? d.abs (interval d.parts.1 d.parts.2) (n + 1) with
  | none => exact .inr rfl
  | some found =>
    obtain ⟨n, -, hn⟩ := List.exists_of_findSome?_eq_some hfound
    exact .inl (significant_of_withDigits? (pos_interval (pos_parts h) _) hn)

end Decimal
end Switchboard
