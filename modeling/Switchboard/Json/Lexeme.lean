/-! The lexemes of a JSON text. Strings and numbers keep their written form, so that a reader which
skips a value judges its form only. -/
namespace Switchboard.Json

/-- One character of a string literal: itself, or a `\u` escape, which is one UTF-16 unit. -/
inductive Piece where
  | char (c : Char)
  | unit (n : Nat)
deriving DecidableEq, Repr

/-- A number literal. `fraction` is empty iff there is no point. -/
structure Numeral where
  negative : Bool
  whole : List Nat
  fraction : List Nat
  exponent : Option Int
deriving DecidableEq, Repr

inductive Lexeme where
  | openArray | closeArray | openObject | closeObject | comma | colon
  | null
  | bool (b : Bool)
  | num (n : Numeral)
  | str (s : List Piece)
deriving DecidableEq, Repr

/-- The four characters that may stand between lexemes. -/
def isSpace (c : Char) : Bool := c = ' ' || c = '\n' || c = '\t' || c = '\r'

def hexValue? (c : Char) : Option Nat :=
  if '0' ≤ c && c ≤ '9' then some (c.toNat - 48)
  else if 'a' ≤ c && c ≤ 'f' then some (c.toNat - 87)
  else if 'A' ≤ c && c ≤ 'F' then some (c.toNat - 55)
  else none

/-- The characters that a backslash and a letter stand for. -/
def escaped? : Char → Option Char
  | '"' => some '"'
  | '\\' => some '\\'
  | '/' => some '/'
  | 'b' => some '\x08'
  | 'f' => some '\x0c'
  | 'n' => some '\n'
  | 'r' => some '\r'
  | 't' => some '\t'
  | _ => none

/-- Reads a string literal after its opening quote; returns what follows its closing quote. -/
def lexString : List Char → Option (List Piece × List Char)
  | [] => none
  | '"' :: r => some ([], r)
  | '\\' :: 'u' :: a :: b :: c :: d :: r => do
    let n := ((← hexValue? a) * 16 + (← hexValue? b)) * 256 + (← hexValue? c) * 16 + (← hexValue? d)
    let (ps, rest) ← lexString r
    some (.unit n :: ps, rest)
  | '\\' :: e :: r => do
    let c ← escaped? e
    let (ps, rest) ← lexString r
    some (.char c :: ps, rest)
  | c :: r => do
    if c.toNat < 0x20 ∨ c = '\\' then none
    let (ps, rest) ← lexString r
    some (.char c :: ps, rest)

def isAsciiDigit (c : Char) : Bool := '0' ≤ c && c ≤ '9'

/-- The digits at the front, as numbers, and the rest. -/
def spanDigits : List Char → List Nat × List Char
  | [] => ([], [])
  | c :: r =>
    if isAsciiDigit c then ((c.toNat - 48) :: (spanDigits r).1, (spanDigits r).2) else ([], c :: r)

def natOfDigits (ds : List Nat) : Nat := ds.foldl (fun n d => n * 10 + d) 0

/-- The digits of a whole part: a zero by itself, or digits that start with another one. -/
def lexWhole : List Char → Option (List Nat × List Char)
  | '0' :: r => some ([0], r)
  | s => match spanDigits s with
    | ([], _) => none
    | p => some p

def lexFraction : List Char → Option (List Nat × List Char)
  | '.' :: r => match spanDigits r with
    | ([], _) => none
    | p => some p
  | s => some ([], s)

/-- A sign, and what follows it. -/
def signed : List Char → Bool × List Char
  | '-' :: r => (true, r)
  | '+' :: r => (false, r)
  | s => (false, s)

def lexExponent : List Char → Option (Option Int × List Char)
  | [] => some (none, [])
  | c :: r =>
    if c = 'e' ∨ c = 'E' then
      let (negative, r) := signed r
      match spanDigits r with
      | ([], _) => none
      | (ds, rest) => some (some (if negative then -(natOfDigits ds : Int) else natOfDigits ds), rest)
    else some (none, c :: r)

/-- Reads a number literal after its sign. -/
def lexNumeral (negative : Bool) (s : List Char) : Option (Numeral × List Char) := do
  let (whole, s) ← lexWhole s
  let (fraction, s) ← lexFraction s
  let (exponent, s) ← lexExponent s
  some (⟨negative, whole, fraction, exponent⟩, s)

/-- The first lexeme of a text that does not start with a space, and what follows it. -/
def lexOne : List Char → Option (Lexeme × List Char)
  | [] => none
  | '[' :: r => some (.openArray, r)
  | ']' :: r => some (.closeArray, r)
  | '\x7b' :: r => some (.openObject, r)
  | '\x7d' :: r => some (.closeObject, r)
  | ',' :: r => some (.comma, r)
  | ':' :: r => some (.colon, r)
  | 'n' :: 'u' :: 'l' :: 'l' :: r => some (.null, r)
  | 't' :: 'r' :: 'u' :: 'e' :: r => some (.bool true, r)
  | 'f' :: 'a' :: 'l' :: 's' :: 'e' :: r => some (.bool false, r)
  | '"' :: r => (lexString r).map fun p => (.str p.1, p.2)
  | '-' :: r => (lexNumeral true r).map fun p => (.num p.1, p.2)
  | s => (lexNumeral false s).map fun p => (.num p.1, p.2)

/-- The lexemes of a text of at most `fuel` characters. -/
def lexUpTo : (fuel : Nat) → List Char → Option (List Lexeme)
  | _, [] => some []
  | 0, _ :: _ => none
  | fuel + 1, c :: r =>
    if isSpace c then lexUpTo fuel r
    else do
      let (l, rest) ← lexOne (c :: r)
      some (l :: (← lexUpTo fuel rest))

/-- Every lexeme has a character at least, so the length of the text bounds their number. -/
def lex (s : List Char) : Option (List Lexeme) := lexUpTo s.length s

section
variable {s rest : List Char}

theorem length_lt_of_lexString {ps : List Piece} (h : lexString s = some (ps, rest)) :
    rest.length < s.length := by
  fun_induction lexString s generalizing ps with
  | case1 => cases h
  | case2 r =>
    cases h
    exact Nat.lt_succ_self _
  | case3 a b c d r ih =>
    simp only [Option.bind_eq_bind, Option.bind_eq_some_iff] at h
    obtain ⟨_, _, _, _, _, _, _, _, ⟨ps', rest'⟩, hr, heq⟩ := h
    cases heq
    exact Nat.lt_trans (ih hr) (Nat.lt_add_of_pos_right (k := 6) (by decide))
  | case4 e r _ ih =>
    simp only [Option.bind_eq_bind, Option.bind_eq_some_iff] at h
    obtain ⟨_, _, ⟨ps', rest'⟩, hr, heq⟩ := h
    cases heq
    exact Nat.lt_trans (ih hr) (Nat.lt_add_of_pos_right (k := 2) (by decide))
  | case5 => cases h
  | case6 c r =>
    rename_i ih
    obtain ⟨⟨ps', rest'⟩, hr, heq⟩ := Option.bind_eq_some_iff.mp h
    cases heq
    exact Nat.lt_succ_of_lt (ih hr)

theorem length_spanDigits (s : List Char) :
    (spanDigits s).1.length + (spanDigits s).2.length = s.length := by
  fun_induction spanDigits s with
  | case1 => rfl
  | case2 c r _ ih =>
    simp only [List.length_cons]
    omega
  | case3 c r _ => exact Nat.zero_add _

theorem length_lt_of_lexWhole {ds : List Nat} (h : lexWhole s = some (ds, rest)) :
    rest.length < s.length := by
  unfold lexWhole at h
  split at h
  next =>
    cases h
    exact Nat.lt_succ_self _
  next =>
    have hlength := length_spanDigits s
    split at h
    next => cases h
    next hne =>
      rw [Option.some.inj h] at hlength hne
      have hpos := List.length_pos_iff.mpr fun hnil : ds = [] => hne rest (by rw [hnil])
      exact hlength ▸ Nat.lt_add_of_pos_left hpos

theorem length_le_of_lexFraction {ds : List Nat} (h : lexFraction s = some (ds, rest)) :
    rest.length ≤ s.length := by
  unfold lexFraction at h
  split at h
  next r =>
    have hlength := length_spanDigits r
    split at h
    next => cases h
    next =>
      rw [Option.some.inj h] at hlength
      dsimp only [List.length_cons] at hlength ⊢
      omega
  next =>
    cases h
    exact Nat.le_refl _

theorem length_signed_le (s : List Char) : (signed s).2.length ≤ s.length := by
  unfold signed
  split
  next => exact Nat.le_succ _
  next => exact Nat.le_succ _
  next => exact Nat.le_refl _

theorem length_le_of_lexExponent {e : Option Int} (h : lexExponent s = some (e, rest)) :
    rest.length ≤ s.length := by
  cases s with
  | nil => cases h; exact Nat.le_refl _
  | cons c r =>
    rw [lexExponent] at h
    split at h
    next =>
      have hsigned := length_signed_le r
      have hlength := length_spanDigits (signed r).2
      dsimp only at h
      split at h
      next => cases h
      next ds rest' _ hspan =>
        rw [hspan] at hlength
        cases h
        dsimp only [List.length_cons] at hlength ⊢
        omega
    next =>
      cases h
      exact Nat.le_refl _

theorem length_lt_of_lexNumeral {negative : Bool} {n : Numeral}
    (h : lexNumeral negative s = some (n, rest)) : rest.length < s.length := by
  simp only [lexNumeral, Option.bind_eq_bind, Option.bind_eq_some_iff] at h
  obtain ⟨⟨whole, s₁⟩, hwhole, ⟨fraction, s₂⟩, hfraction, ⟨exponent, s₃⟩, hexponent, heq⟩ := h
  cases heq
  calc s₃.length ≤ s₂.length := length_le_of_lexExponent hexponent
    _ ≤ s₁.length := length_le_of_lexFraction hfraction
    _ < s.length := length_lt_of_lexWhole hwhole

theorem length_lt_of_lexOne {l : Lexeme} (h : lexOne s = some (l, rest)) :
    rest.length < s.length := by
  unfold lexOne at h
  split at h
  case h_11 r =>
    obtain ⟨⟨ps, rest'⟩, hr, heq⟩ := Option.map_eq_some_iff.mp h
    cases heq
    exact Nat.lt_succ_of_lt (length_lt_of_lexString hr)
  case h_12 r =>
    obtain ⟨⟨n, rest'⟩, hr, heq⟩ := Option.map_eq_some_iff.mp h
    cases heq
    exact Nat.lt_succ_of_lt (length_lt_of_lexNumeral hr)
  case h_13 =>
    obtain ⟨⟨n, rest'⟩, hr, heq⟩ := Option.map_eq_some_iff.mp h
    cases heq
    exact length_lt_of_lexNumeral hr
  all_goals
    cases h
    try (simp only [List.length_cons]; omega)

theorem lexUpTo_eq_lexUpTo {fuel fuel' : Nat} (h : s.length ≤ fuel) (h' : s.length ≤ fuel') :
    lexUpTo fuel s = lexUpTo fuel' s := by
  induction fuel generalizing s fuel' with
  | zero =>
    rw [List.length_eq_zero_iff.mp (Nat.le_zero.mp h), lexUpTo, lexUpTo]
  | succ fuel ih =>
    cases s with
    | nil => rw [lexUpTo, lexUpTo]
    | cons c r =>
      cases fuel' with
      | zero => cases h'
      | succ fuel' =>
        have hr := Nat.le_of_succ_le_succ h
        have hr' := Nat.le_of_succ_le_succ h'
        rw [lexUpTo, lexUpTo, ih hr hr']
        cases hone : lexOne (c :: r) with
        | none => rfl
        | some p =>
          have hlt : p.2.length ≤ r.length := Nat.le_of_lt_succ (length_lt_of_lexOne hone)
          dsimp only [Option.bind_eq_bind, Option.bind_some]
          rw [ih (Nat.le_trans hlt hr) (Nat.le_trans hlt hr')]

theorem isSpace_of_lexOne {c : Char} {p : Lexeme × List Char} (h : lexOne (c :: rest) = some p) :
    isSpace c = false := by
  rw [Bool.eq_false_iff]
  intro hspace
  simp only [isSpace, Bool.or_eq_true, decide_eq_true_iff] at hspace
  rcases hspace with ((rfl | rfl) | rfl) | rfl <;> cases h

theorem lex_of_lexOne {l : Lexeme} (h : lexOne s = some (l, rest)) :
    lex s = (lex rest).map (l :: ·) := by
  cases s with
  | nil => cases h
  | cons c r =>
    have hlt : rest.length ≤ r.length := Nat.le_of_lt_succ (length_lt_of_lexOne h)
    rw [lex, List.length_cons, lexUpTo, isSpace_of_lexOne h, h]
    dsimp only [Option.bind_eq_bind, Option.bind_some]
    rw [if_neg Bool.false_ne_true, lexUpTo_eq_lexUpTo hlt (Nat.le_refl _), ← lex]
    cases lex rest <;> rfl

end

end Switchboard.Json
