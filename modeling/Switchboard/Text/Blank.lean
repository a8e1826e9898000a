/-! Blank characters, what is left of a text without the blanks at its ends, and the decimal digits of
all scripts. -/
namespace Switchboard

/-- The Unicode property White_Space. -/
def isBlank (c : Char) : Bool :=
  let n := c.toNat
  (9 ≤ n && n ≤ 13) || n == 0x20 || n == 0x85 || n == 0xA0 || n == 0x1680
    || (0x2000 ≤ n && n ≤ 0x200A) || n == 0x2028 || n == 0x2029 || n == 0x202F
    || n == 0x205F || n == 0x3000

namespace Chars

def trimStart (s : List Char) : List Char := s.dropWhile isBlank

def trimEnd (s : List Char) : List Char := (s.reverse.dropWhile isBlank).reverse

def trim (s : List Char) : List Char := trimEnd (trimStart s)

theorem trimStart_append {blanks : List Char} (h : blanks.all isBlank = true) (s : List Char) :
    trimStart (blanks ++ s) = trimStart s :=
  List.dropWhile_append_of_pos (List.all_eq_true.mp h)

theorem trimStart_cons {c : Char} (h : isBlank c = false) (s : List Char) :
    trimStart (c :: s) = c :: s := List.dropWhile_cons_of_neg (by simp [h])

theorem exists_trimStart (s : List Char) :
    ∃ blanks, blanks.all isBlank = true ∧ s = blanks ++ trimStart s :=
  ⟨s.takeWhile isBlank, List.all_takeWhile, List.takeWhile_append_dropWhile.symm⟩

theorem all_isBlank_trimStart (s : List Char) : (trimStart s).all isBlank = s.all isBlank := by
  obtain ⟨blanks, hblanks, hs⟩ := exists_trimStart s
  have hall := congrArg (List.all · isBlank) hs
  rw [List.all_append, hblanks, Bool.true_and] at hall
  exact hall.symm

theorem trimStart_eq_nil {s : List Char} : trimStart s = [] ↔ s.all isBlank = true := by
  constructor
  · intro h
    rw [← all_isBlank_trimStart, h]
    rfl
  · intro h
    have hs := trimStart_append h []
    rwa [List.append_nil] at hs

/-- What is left at the start is not of the class. -/
theorem not_of_head?_dropWhile {p : Char → Bool} {s : List Char} {c : Char}
    (hc : c ∈ (s.dropWhile p).head?) : p c = false := by
  have hhead := List.head?_dropWhile_not p s
  rw [hc] at hhead
  exact hhead

theorem isBlank_of_trimStart {s rest : List Char} {c : Char} (h : trimStart s = c :: rest) :
    isBlank c = false := by
  have hs : s.dropWhile isBlank = c :: rest := h
  exact not_of_head?_dropWhile (by rw [hs]; rfl)

theorem trimEnd_eq_nil {s : List Char} : trimEnd s = [] ↔ s.all isBlank = true := by
  rw [trimEnd, List.reverse_eq_nil_iff, ← List.all_reverse]
  exact trimStart_eq_nil

theorem trimEnd_prefix (s : List Char) : trimEnd s <+: s := by
  have hsuffix := List.dropWhile_suffix isBlank (l := s.reverse)
  rwa [← List.reverse_prefix, List.reverse_reverse] at hsuffix

/-- Nothing is left at the start of a trimmed text to be trimmed. -/
theorem trimStart_trim (s : List Char) : trimStart (trim s) = trim s := by
  have hprefix : trim s <+: trimStart s := trimEnd_prefix _
  cases htrim : trim s with
  | nil => rfl
  | cons c rest =>
    rw [htrim] at hprefix
    obtain ⟨after, hafter⟩ := hprefix
    exact trimStart_cons (isBlank_of_trimStart hafter.symm) rest

theorem trim_eq_nil {s : List Char} : trim s = [] ↔ s.all isBlank = true := by
  rw [trim, trimEnd_eq_nil, all_isBlank_trimStart]

/-- A trimmed text is blank only if it is empty. -/
theorem all_isBlank_trim (s : List Char) : (trim s).all isBlank = s.all isBlank := by
  rw [Bool.eq_iff_iff, ← trimStart_eq_nil, trimStart_trim, trim_eq_nil]

/-- Nothing is dropped from the start if the first character, if any, is not of the class. -/
theorem dropWhile_eq_self {p : Char → Bool} {s : List Char} (h : ∀ c ∈ s.head?, p c = false) :
    s.dropWhile p = s := by
  cases s with
  | nil => rfl
  | cons c rest => exact List.dropWhile_cons_of_neg (by simp [h c rfl])

theorem forall_head?_append {p : Char → Prop} {s t : List Char} (hs : ∀ c ∈ s, p c)
    (ht : ∀ c ∈ t.head?, p c) : ∀ c ∈ (s ++ t).head?, p c := by
  cases s with
  | nil => exact ht
  | cons d rest =>
    intro c hc
    obtain rfl := Option.some.inj hc
    exact hs _ List.mem_cons_self

theorem trimStart_eq_self {s : List Char} (h : ∀ c ∈ s.head?, isBlank c = false) :
    trimStart s = s := dropWhile_eq_self h

theorem trimEnd_eq_self {s : List Char} (h : ∀ c ∈ s.getLast?, isBlank c = false) :
    trimEnd s = s := by
  rw [← List.head?_reverse] at h
  have hs := congrArg List.reverse (trimStart_eq_self h)
  rwa [List.reverse_reverse] at hs

theorem trimEnd_append {blanks : List Char} (h : blanks.all isBlank = true) (s : List Char) :
    trimEnd (s ++ blanks) = trimEnd s := by
  rw [← List.all_reverse] at h
  rw [trimEnd, List.reverse_append, List.dropWhile_append_of_pos (List.all_eq_true.mp h), trimEnd]

theorem dropWhile_append_of_head {p : Char → Bool} {s : List Char}
    (h : ∀ c ∈ s.head?, p c = false) (before : List Char) :
    (before ++ s).dropWhile p = before.dropWhile p ++ s := by
  rw [List.dropWhile_append]
  split
  next hempty => rw [List.isEmpty_iff.mp hempty, dropWhile_eq_self h, List.nil_append]
  next => rfl

/-- Only the part behind a character that is not of the class can lose something at its end. -/
theorem dropWhile_reverse_append {p : Char → Bool} {s : List Char}
    (h : ∀ c ∈ s.getLast?, p c = false) (rest : List Char) :
    ((s ++ rest).reverse.dropWhile p).reverse = s ++ (rest.reverse.dropWhile p).reverse := by
  rw [← List.head?_reverse] at h
  rw [List.reverse_append, dropWhile_append_of_head h, List.reverse_append, List.reverse_reverse]

theorem trimEnd_append_of_last {s : List Char} (h : ∀ c ∈ s.getLast?, isBlank c = false)
    (rest : List Char) : trimEnd (s ++ rest) = s ++ trimEnd rest :=
  dropWhile_reverse_append h rest

/-- Removes every character of the class from both ends. -/
def trimBy (p : Char → Bool) (s : List Char) : List Char :=
  ((s.dropWhile p).reverse.dropWhile p).reverse

/-- A text between characters of the class is what is left if neither end of it is one. -/
theorem trimBy_padded {p : Char → Bool} {before s after : List Char} (hbefore : before.all p = true)
    (hafter : after.all p = true) (hfirst : ∀ c ∈ s.head?, p c = false)
    (hlast : ∀ c ∈ s.getLast?, p c = false) : trimBy p (before ++ (s ++ after)) = s := by
  have hreversed : ∀ c ∈ s.reverse.head?, p c = false := by rwa [List.head?_reverse]
  rw [trimBy, List.dropWhile_append_of_pos (List.all_eq_true.mp hbefore)]
  cases s with
  | nil =>
    have hnone : (after ++ []).dropWhile p = [] :=
      List.dropWhile_append_of_pos (List.all_eq_true.mp hafter)
    rw [List.append_nil] at hnone
    rw [List.nil_append, hnone]
    rfl
  | cons c rest =>
    rw [List.cons_append, List.dropWhile_cons_of_neg (by simp [hfirst c rfl]), ← List.cons_append,
      List.reverse_append, List.dropWhile_append_of_pos, dropWhile_eq_self hreversed,
      List.reverse_reverse]
    exact fun c hc => List.all_eq_true.mp hafter c (List.mem_reverse.mp hc)

/-- What is left of a text stands in it between characters of the class, and neither end is one. -/
theorem exists_trimBy (p : Char → Bool) (s : List Char) : ∃ before after,
    before.all p = true ∧ after.all p = true ∧ s = before ++ (trimBy p s ++ after) ∧
      (∀ c ∈ (trimBy p s).head?, p c = false) ∧ ∀ c ∈ (trimBy p s).getLast?, p c = false := by
  have hmid : s.dropWhile p = trimBy p s ++ ((s.dropWhile p).reverse.takeWhile p).reverse := by
    rw [trimBy, ← List.reverse_append, List.takeWhile_append_dropWhile, List.reverse_reverse]
  refine ⟨s.takeWhile p, ((s.dropWhile p).reverse.takeWhile p).reverse, List.all_takeWhile,
    List.all_reverse.trans List.all_takeWhile, ?_, fun c hc => ?_, fun c hc => ?_⟩
  · rw [← hmid, List.takeWhile_append_dropWhile]
  · obtain ⟨rest, hrest⟩ := List.head?_eq_some_iff.mp hc
    exact not_of_head?_dropWhile (by rw [hmid, hrest]; rfl)
  · rw [trimBy, List.getLast?_reverse] at hc
    exact not_of_head?_dropWhile hc

theorem trim_padded {before s after : List Char} (hbefore : before.all isBlank = true)
    (hafter : after.all isBlank = true) (hfirst : ∀ c ∈ s.head?, isBlank c = false)
    (hlast : ∀ c ∈ s.getLast?, isBlank c = false) : trim (before ++ (s ++ after)) = s :=
  trimBy_padded hbefore hafter hfirst hlast

theorem trim_eq_self {s : List Char} (hfirst : ∀ c ∈ s.head?, isBlank c = false)
    (hlast : ∀ c ∈ s.getLast?, isBlank c = false) : trim s = s := by
  rw [trim, trimStart_eq_self hfirst, trimEnd_eq_self hlast]

theorem trim_append {blanks : List Char} (h : blanks.all isBlank = true) (s : List Char) :
    trim (s ++ blanks) = trim s := by
  rw [trim, trimStart, List.dropWhile_append]
  split
  next hempty =>
    have hs : trimStart s = [] := List.isEmpty_iff.mp hempty
    have hblanks : trimStart blanks = [] := trimStart_eq_nil.mpr h
    rw [trim, hs]
    exact congrArg trimEnd hblanks
  next => exact trimEnd_append h _

theorem exists_trimEnd (s : List Char) :
    ∃ blanks, blanks.all isBlank = true ∧ s = trimEnd s ++ blanks := by
  obtain ⟨blanks, hblanks, hs⟩ := exists_trimStart s.reverse
  refine ⟨blanks.reverse, List.all_reverse.trans hblanks, ?_⟩
  have hsplit := congrArg List.reverse hs
  rwa [List.reverse_reverse, List.reverse_append] at hsplit

theorem trim_trimEnd (s : List Char) : trim (trimEnd s) = trim s := by
  obtain ⟨blanks, hblanks, hs⟩ := exists_trimEnd s
  have htrim := trim_append hblanks (trimEnd s)
  rw [← hs] at htrim
  exact htrim.symm

theorem isBlank_of_head?_trim {s : List Char} {c : Char} (h : c ∈ (trim s).head?) :
    isBlank c = false := by
  obtain ⟨rest, hs⟩ := List.head?_eq_some_iff.mp h
  exact isBlank_of_trimStart ((trimStart_trim s).trans hs)

theorem isBlank_of_getLast?_trim {s : List Char} {c : Char} (h : c ∈ (trim s).getLast?) :
    isBlank c = false := by
  rw [trim, trimEnd, List.getLast?_reverse] at h
  obtain ⟨rest, hs⟩ := List.head?_eq_some_iff.mp h
  exact isBlank_of_trimStart hs

end Chars

namespace Text

def trimStart (s : String) : String := .ofList (Chars.trimStart s.toList)

def trim (s : String) : String := .ofList (Chars.trim s.toList)

/-- Nothing but blanks. -/
def isBlankText (s : String) : Bool := s.toList.all isBlank

theorem isBlankText_trim (s : String) : isBlankText (trim s) = isBlankText s := by
  rw [isBlankText, trim, String.toList_ofList, Chars.all_isBlank_trim]
  rfl

theorem trim_of_isBlankText {s : String} (h : isBlankText s = true) : trim s = "" := by
  rw [trim, Chars.trim_eq_nil.mpr h, String.ofList_nil]

theorem isBlankText_append (s t : String) :
    isBlankText (s ++ t) = (isBlankText s && isBlankText t) := by
  rw [isBlankText, String.toList_append, List.all_append]
  rfl

end Text

/-- The zeros of the runs of ten decimal digits (Unicode general category Nd). -/
def digitZeros : List Nat :=
  [0x30, 0x660, 0x6F0, 0x7C0, 0x966, 0x9E6, 0xA66, 0xAE6, 0xB66, 0xBE6, 0xC66, 0xCE6, 0xD66,
   0xDE6, 0xE50, 0xED0, 0xF20, 0x1040, 0x1090, 0x17E0, 0x1810, 0x1946, 0x19D0, 0x1A80, 0x1A90,
   0x1B50, 0x1BB0, 0x1C40, 0x1C50, 0xA620, 0xA8D0, 0xA900, 0xA9D0, 0xA9F0, 0xAA50, 0xABF0,
   0xFF10, 0x104A0, 0x10D30, 0x10D40, 0x11066, 0x110F0, 0x11136, 0x111D0, 0x112F0, 0x11450,
   0x114D0, 0x11650, 0x116C0, 0x116D0, 0x116DA, 0x11730, 0x118E0, 0x11950, 0x11BF0, 0x11C50,
   0x11D50, 0x11DA0, 0x11F50, 0x16130, 0x16A60, 0x16AC0, 0x16B50, 0x16D70, 0x1CCF0, 0x1D7CE,
   0x1D7D8, 0x1D7E2, 0x1D7EC, 0x1D7F6, 0x1E140, 0x1E2F0, 0x1E4F0, 0x1E5F1, 0x1E950, 0x1FBF0]

/-- A decimal digit of some script. -/
def isDecimalDigit (c : Char) : Bool :=
  digitZeros.any fun z => z ≤ c.toNat && c.toNat < z + 10

end Switchboard
