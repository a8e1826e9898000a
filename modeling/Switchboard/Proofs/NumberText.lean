import Switchboard.Json.Number

/-! Numbers in JSON texts: each is printed as one numeral, and as this numeral it is read, where
nothing follows that would continue it. -/
namespace Switchboard.Json

theorem isAsciiDigit_ofNat : ∀ d < 10, isAsciiDigit (Char.ofNat (48 + d)) = true := by decide

theorem toNat_ofNat_sub : ∀ d < 10, (Char.ofNat (48 + d)).toNat - 48 = d := by decide

theorem ofNat_ne_zero : ∀ d < 10, d ≠ 0 → Char.ofNat (48 + d) ≠ '0' := by decide

theorem digitChars_append (ds ds' : List Nat) :
    digitChars (ds ++ ds') = digitChars ds ++ digitChars ds' := List.map_append

theorem digitChars_zeros (n : Nat) : digitChars (List.replicate n 0) = List.replicate n '0' :=
  List.map_replicate

theorem natChars_eq (n : Nat) : natChars n = digitChars (decimalDigits n) := by
  rw [digitChars, decimalDigits, List.map_map, natChars]
  refine (List.map_id _).symm.trans (List.map_congr_left fun c hc => ?_)
  rw [Function.comp_apply, Nat.add_sub_cancel' (range_of_mem_toDigits hc).1, Char.ofNat_toNat, id]

theorem natOfDigits_decimalDigits (n : Nat) : natOfDigits (decimalDigits n) = n := by
  have hn := Nat.ofDigitChars_ten_toDigits (n := n)
  rw [Nat.ofDigitChars_eq_foldl] at hn
  rw [natOfDigits, decimalDigits, List.foldl_map]
  simp only [Nat.mul_comm 10] at hn
  exact hn

section
variable {ds : List Nat} {rest : List Char}

theorem spanDigits_append (hds : ∀ d ∈ ds, d < 10)
    (hrest : ∀ c ∈ rest.head?, isAsciiDigit c = false) :
    spanDigits (digitChars ds ++ rest) = (ds, rest) := by
  induction ds with
  | nil =>
    cases rest with
    | nil => rfl
    | cons c r =>
      change spanDigits (c :: r) = _
      rw [spanDigits, hrest c rfl, if_neg Bool.false_ne_true]
  | cons d ds ih =>
    obtain ⟨hd, hds⟩ := List.forall_mem_cons.mp hds
    change spanDigits (Char.ofNat (48 + d) :: (digitChars ds ++ rest)) = _
    rw [spanDigits, if_pos (isAsciiDigit_ofNat d hd), ih hds, toNat_ofNat_sub d hd]

theorem lexWhole_append (hds : ds = [0] ∨ Decimal.Significant ds)
    (hrest : ∀ c ∈ rest.head?, isAsciiDigit c = false) :
    lexWhole (digitChars ds ++ rest) = some (ds, rest) := by
  rcases hds with rfl | hds
  · rfl
  · obtain ⟨d, ds', rfl⟩ := List.exists_cons_of_ne_nil hds.ne_nil
    have hspan := spanDigits_append hds.digit hrest
    have hzero := ofNat_ne_zero d (hds.digit d List.mem_cons_self) (hds.head d rfl)
    unfold lexWhole
    split
    next heq => exact absurd (List.cons.inj heq).1 hzero
    next => rw [hspan]

def fractionChars (ds : List Nat) : List Char := if ds = [] then [] else '.' :: digitChars ds

theorem lexFraction_append (hds : ∀ d ∈ ds, d < 10)
    (hrest : ∀ c ∈ rest.head?, isAsciiDigit c = false ∧ c ≠ '.') :
    lexFraction (fractionChars ds ++ rest) = some (ds, rest) := by
  have hspan := spanDigits_append hds fun c hc => (hrest c hc).1
  rw [fractionChars]
  split
  next hnil =>
    subst hnil
    unfold lexFraction
    split
    next heq => exact absurd rfl (hrest '.' (by rw [← List.nil_append rest, heq]; rfl)).2
    next => rfl
  next hne =>
    rw [List.cons_append, lexFraction, hspan]
    obtain ⟨d, ds', rfl⟩ := List.exists_cons_of_ne_nil hne
    rfl

def exponentChars : Option Int → List Char
  | none => []
  | some e => 'e' :: (if e < 0 then '-' else '+') :: natChars e.natAbs

theorem lexExponent_append {e : Option Int}
    (hrest : ∀ c ∈ rest.head?, isAsciiDigit c = false ∧ c ≠ 'e' ∧ c ≠ 'E') :
    lexExponent (exponentChars e ++ rest) = some (e, rest) := by
  cases e with
  | none =>
    cases rest with
    | nil => rfl
    | cons c r =>
      obtain ⟨-, hmark⟩ := hrest c rfl
      change lexExponent (c :: r) = _
      rw [lexExponent, if_neg (not_or.mpr hmark)]
  | some e =>
    have hspan : spanDigits (digitChars (decimalDigits e.natAbs) ++ rest) =
        (decimalDigits e.natAbs, rest) :=
      spanDigits_append (fun d => lt_ten_of_mem_decimalDigits) fun c hc => (hrest c hc).1
    have hsigned : signed ((if e < 0 then '-' else '+') :: (natChars e.natAbs ++ rest)) =
        (decide (e < 0), natChars e.natAbs ++ rest) := by
      by_cases he : e < 0
      · rw [if_pos he, decide_eq_true he, signed]
      · rw [if_neg he, decide_eq_false he, signed]
    obtain ⟨d, ds', hdigits⟩ := List.exists_cons_of_ne_nil (decimalDigits_ne_nil e.natAbs)
    rw [exponentChars, List.cons_append, List.cons_append, lexExponent, if_pos (.inl rfl), hsigned]
    dsimp only
    rw [natChars_eq, hspan, hdigits]
    dsimp only
    rw [← hdigits, natOfDigits_decimalDigits]
    by_cases he : e < 0
    · rw [if_pos (decide_eq_true he), Int.ofNat_natAbs_of_nonpos (Int.le_of_lt he), Int.neg_neg]
    · rw [if_neg (by rwa [decide_eq_true_iff]), Int.natAbs_of_nonneg (Int.not_lt.mp he)]

end

/-- What may follow a number without continuing it: not a digit, a point or the mark of an
exponent. -/
def EndsNumber (rest : List Char) : Prop :=
  ∀ c ∈ rest.head?, isAsciiDigit c = false ∧ c ≠ '.' ∧ c ≠ 'e' ∧ c ≠ 'E'

namespace Numeral

/-- The whole part is a zero by itself or does not begin with one. -/
structure Valid (n : Numeral) : Prop where
  whole : n.whole = [0] ∨ Decimal.Significant n.whole
  fraction : ∀ d ∈ n.fraction, d < 10

def unsignedChars (n : Numeral) : List Char :=
  digitChars n.whole ++ (fractionChars n.fraction ++ exponentChars n.exponent)

def chars (n : Numeral) : List Char := (if n.negative then ['-'] else []) ++ n.unsignedChars

variable {n : Numeral} {rest : List Char}

theorem lexNumeral_unsignedChars (h : n.Valid) (hrest : EndsNumber rest) :
    lexNumeral n.negative (n.unsignedChars ++ rest) = some (n, rest) := by
  have hexponent : lexExponent (exponentChars n.exponent ++ rest) = some (n.exponent, rest) :=
    lexExponent_append fun c hc => ⟨(hrest c hc).1, (hrest c hc).2.2⟩
  have hafterFraction : ∀ c ∈ (exponentChars n.exponent ++ rest).head?,
      isAsciiDigit c = false ∧ c ≠ '.' := by
    intro c hc
    cases hn : n.exponent with
    | none =>
      rw [hn] at hc
      exact ⟨(hrest c hc).1, (hrest c hc).2.1⟩
    | some e =>
      rw [hn] at hc
      obtain rfl := Option.some.inj hc
      decide
  have hafterWhole : ∀ c ∈ (fractionChars n.fraction ++ (exponentChars n.exponent ++ rest)).head?,
      isAsciiDigit c = false := by
    intro c hc
    rw [fractionChars] at hc
    split at hc
    · exact (hafterFraction c hc).1
    · obtain rfl := Option.some.inj hc
      rfl
  rw [lexNumeral, unsignedChars, List.append_assoc, List.append_assoc,
    lexWhole_append h.whole hafterWhole]
  dsimp only [Option.bind_eq_bind, Option.bind_some]
  rw [lexFraction_append h.fraction hafterFraction]
  dsimp only [Option.bind_some]
  rw [hexponent]
  rfl

theorem lexOne_of_isAsciiDigit {c : Char} (hc : isAsciiDigit c = true) (r : List Char) :
    lexOne (c :: r) = (lexNumeral false (c :: r)).map fun p => (.num p.1, p.2) := by
  unfold lexOne
  split <;> first | rfl | (rename_i heq; cases heq <;> cases hc)

/-- A numeral is read as it is written. -/
theorem lexOne_chars (h : n.Valid) (hrest : EndsNumber rest) :
    lexOne (n.chars ++ rest) = some (.num n, rest) := by
  have hread := lexNumeral_unsignedChars h hrest
  rw [chars]
  cases hn : n.negative with
  | true =>
    rw [hn] at hread
    change (lexNumeral true (n.unsignedChars ++ rest)).map _ = _
    rw [hread]
    rfl
  | false =>
    rw [hn] at hread
    have hfirst : ∃ c r, n.unsignedChars ++ rest = c :: r ∧ isAsciiDigit c = true := by
      rcases h.whole with hzero | hwhole
      · exact ⟨'0', _, by rw [unsignedChars, hzero]; rfl, rfl⟩
      · obtain ⟨d, ds, hds⟩ := List.exists_cons_of_ne_nil hwhole.ne_nil
        refine ⟨Char.ofNat (48 + d), _, by rw [unsignedChars, hds]; rfl, ?_⟩
        exact isAsciiDigit_ofNat d (hwhole.digit d (hds ▸ List.mem_cons_self))
    obtain ⟨c, r, hcons, hdigit⟩ := hfirst
    rw [if_neg Bool.false_ne_true, List.nil_append, hcons, lexOne_of_isAsciiDigit hdigit, ← hcons,
      hread]
    rfl

end Numeral

end Switchboard.Json

namespace Switchboard

def Decimal.numeral (negative : Bool) (d : Decimal) : Json.Numeral :=
  if -5 ≤ d.exponent ∧ d.exponent < 0 then
    ⟨negative, [0], List.replicate (-d.exponent - 1).toNat 0 ++ d.digits, none⟩
  else if 0 ≤ d.exponent ∧ d.exponent ≤ 15 then
    let places := d.exponent.toNat + 1
    ⟨negative, d.digits.take places ++ List.replicate (places - d.digits.length) 0,
      if d.digits.length ≤ places then [0] else d.digits.drop places, none⟩
  else ⟨negative, d.digits.take 1, d.digits.drop 1, some d.exponent⟩

namespace Decimal
variable {d : Decimal}

theorem digits_ne_nil (h : Significant d.digits ∨ d = ⟨[], 0⟩) (he : d.exponent ≠ 0) :
    d.digits ≠ [] := by
  rcases h with h | rfl
  · exact h.ne_nil
  · exact absurd rfl he

theorem unsignedChars_numeral (negative : Bool) (h : Significant d.digits ∨ d = ⟨[], 0⟩) :
    (d.numeral negative).unsignedChars = Json.decimalChars d := by
  rw [numeral, Json.decimalChars]
  dsimp only
  split
  next hsmall =>
    have hne := digits_ne_nil h (Int.ne_of_lt hsmall.2)
    rw [Json.Numeral.unsignedChars, Json.fractionChars,
      if_neg (List.append_ne_nil_of_right_ne_nil _ hne), Json.digitChars_append,
      Json.digitChars_zeros]
    simp [Json.digitChars, Json.exponentChars]
  next =>
    split
    next =>
      have hlength : (Json.digitChars d.digits).length = d.digits.length := List.length_map _
      rw [Json.Numeral.unsignedChars, Json.digitChars_append, Json.digitChars_zeros, hlength]
      dsimp only
      by_cases hplaces : d.digits.length ≤ d.exponent.toNat + 1
      · rw [if_pos hplaces, if_pos hplaces]
        simp [Json.digitChars, Json.fractionChars, Json.exponentChars]
      · rw [if_neg hplaces, if_neg hplaces]
        have hne : d.digits.drop (d.exponent.toNat + 1) ≠ [] := by
          rwa [Ne, List.drop_eq_nil_iff]
        simp [Json.digitChars, Json.fractionChars, Json.exponentChars, hne]
    next =>
      have hdrop : (Json.digitChars d.digits).drop 1 = Json.digitChars (d.digits.drop 1) :=
        List.map_drop.symm
      have htake : (Json.digitChars d.digits).take 1 = Json.digitChars (d.digits.take 1) :=
        List.map_take.symm
      have hnil : Json.digitChars (d.digits.drop 1) = [] ↔ d.digits.drop 1 = [] :=
        List.map_eq_nil_iff
      rw [hdrop, htake, Json.Numeral.unsignedChars, Json.fractionChars, List.append_assoc]
      simp only [hnil]
      rfl

theorem Significant.take_append {ds zeros : List Nat} (h : Significant ds) (k : Nat)
    (hzeros : ∀ c ∈ zeros, c < 10) : Significant (ds.take (k + 1) ++ zeros) := by
  obtain ⟨first, rest, rfl⟩ := List.exists_cons_of_ne_nil h.ne_nil
  refine ⟨nofun, fun c hc => h.head c (by simpa using hc), fun c hc => ?_⟩
  exact (List.mem_append.mp hc).elim (fun hc => h.digit c (List.mem_of_mem_take hc)) (hzeros c)

theorem valid_numeral (negative : Bool) (h : Significant d.digits ∨ d = ⟨[], 0⟩) :
    (d.numeral negative).Valid := by
  have hdigit : ∀ c ∈ d.digits, c < 10 := by
    rcases h with h | rfl
    · exact h.digit
    · exact nofun
  have hzeros (k : Nat) : ∀ c ∈ List.replicate k 0, c < 10 := fun c hc =>
    (List.mem_replicate.mp hc).2 ▸ (by decide)
  rw [numeral]
  dsimp only
  split
  next =>
    exact ⟨.inl rfl, fun c hc => (List.mem_append.mp hc).elim (hzeros _ c) (hdigit c)⟩
  next =>
    split
    next =>
      refine ⟨?_, fun c hc => ?_⟩
      · exact h.elim (fun h => .inr (h.take_append _ (hzeros _))) fun h => .inl (h ▸ rfl)
      · split at hc
        · exact List.mem_singleton.mp hc ▸ (by decide)
        · exact hdigit c (List.mem_of_mem_drop hc)
    next hsmall hlarge =>
      refine ⟨.inr ?_, fun c hc => hdigit c (List.mem_of_mem_drop hc)⟩
      rcases h with h | rfl
      · have hfirst : Significant (d.digits.take 1 ++ []) := h.take_append 0 nofun
        rwa [List.append_nil] at hfirst
      · exact absurd (by decide) hlarge

end Decimal

namespace Json

def Number.numeral : Number → Numeral
  | .int i => ⟨decide (i < 0), decimalDigits i.natAbs, [], none⟩
  | .float d =>
    if d.magnitude = 0 then ⟨d.isNegative, [0], [0], none⟩
    else (Decimal.shortest d).numeral d.isNegative

theorem Number.chars_numeral (n : Number) : n.numeral.chars = n.chars := by
  cases n with
  | int i =>
    rw [chars, intChars, natChars_eq, numeral, Numeral.chars]
    dsimp only
    rw [Numeral.unsignedChars]
    by_cases hi : i < 0
    · simp [hi, fractionChars, exponentChars]
    · simp [hi, fractionChars, exponentChars]
  | float d =>
    rw [chars, doubleChars, numeral]
    by_cases hd : d.magnitude = 0
    · rw [if_pos hd, if_pos hd]
      rfl
    · have hchars := Decimal.unsignedChars_numeral d.isNegative (Decimal.significant_shortest hd)
      have hnegative (s : Decimal) : (s.numeral d.isNegative).negative = d.isNegative := by
        unfold Decimal.numeral
        split
        · rfl
        · split <;> rfl
      rw [if_neg hd, if_neg hd, Numeral.chars, hchars, hnegative]

theorem Number.valid_numeral (n : Number) : n.numeral.Valid := by
  cases n with
  | int i =>
    refine ⟨?_, nofun⟩
    by_cases hi : i = 0
    · exact .inl (by rw [hi]; rfl)
    · refine .inr ⟨decimalDigits_ne_nil _, fun d hd => ?_, fun d => lt_ten_of_mem_decimalDigits⟩
      exact ne_zero_of_head?_decimalDigits (Int.natAbs_pos.mpr hi) hd
  | float d =>
    rw [numeral]
    split
    next => exact ⟨.inl rfl, fun c hc => List.mem_singleton.mp hc ▸ (by decide)⟩
    next hd => exact Decimal.valid_numeral _ (Decimal.significant_shortest hd)

/-- A number is read as the numeral that it is printed as. -/
theorem Number.lexOne_chars (n : Number) {rest : List Char} (hrest : EndsNumber rest) :
    lexOne (n.chars ++ rest) = some (.num n.numeral, rest) := by
  rw [← n.chars_numeral]
  exact Numeral.lexOne_chars n.valid_numeral hrest

end Json
end Switchboard
