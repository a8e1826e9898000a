import Switchboard.Text.Blank

/-! Cutting texts: lines, the first place a word occurs, and a limit on the length. -/
namespace Switchboard
namespace Chars

/-- What follows `start`, if the text begins with it. -/
def after? : (start s : List Char) → Option (List Char)
  | [], s => some s
  | _ :: _, [] => none
  | p :: ps, c :: cs => if p = c then after? ps cs else none

theorem length_of_after? {start s r : List Char} (h : after? start s = some r) :
    s.length = start.length + r.length := by
  induction start generalizing s with
  | nil => cases h; simp
  | cons p ps ih =>
    cases s with
    | nil => cases h
    | cons c cs =>
      simp only [after?] at h
      split at h
      · simp [ih h]; omega
      · cases h

theorem after?_eq_some {start s r : List Char} : after? start s = some r ↔ s = start ++ r := by
  induction start generalizing s with
  | nil => exact ⟨fun h => Option.some.inj h, congrArg some⟩
  | cons p ps ih =>
    cases s with
    | nil => exact ⟨nofun, nofun⟩
    | cons c cs =>
      rw [after?, List.cons_append, List.cons.injEq]
      split
      next h => exact ih.trans (and_iff_right h.symm).symm
      next h => exact ⟨nofun, fun heq => absurd heq.1.symm h⟩

theorem isSome_after? {start s : List Char} : (after? start s).isSome = true ↔ start <+: s := by
  rw [Option.isSome_iff_exists]
  exact exists_congr fun r => after?_eq_some.trans eq_comm

/-- A text without a word, however often it begins with it. -/
def dropRepeated (word s : List Char) : List Char :=
  match _h : after? word s with
  | none => s
  | some r => if word = [] then s else dropRepeated word r
termination_by s.length
decreasing_by
  have := length_of_after? ‹_›
  have := List.length_pos_iff.mpr ‹_›
  omega

/-- The text before and after the first occurrence of `word`. -/
def cut? (word : List Char) : List Char → Option (List Char × List Char)
  | [] => (after? word []).map fun r => ([], r)
  | c :: cs =>
    match after? word (c :: cs) with
    | some r => some ([], r)
    | none => (cut? word cs).map fun p => (c :: p.1, p.2)

def contains (word s : List Char) : Bool := (cut? word s).isSome

/-- How often `word` occurs without overlap; the empty word stands before every character and at
the end. `skip` counts the characters of an occurrence still to be passed. -/
def occurrences (word : List Char) : (skip : Nat) → List Char → Nat
  | _, [] => if word.isEmpty then 1 else 0
  | skip + 1, _ :: cs => occurrences word skip cs
  | 0, c :: cs =>
    match after? word (c :: cs) with
    | some _ => 1 + occurrences word (word.length - 1) cs
    | none => occurrences word 0 cs

/-- The pieces between the characters of a class; one more than there are such characters. -/
def splitBy (p : Char → Bool) : List Char → List (List Char)
  | [] => [[]]
  | c :: cs =>
    if p c then [] :: splitBy p cs
    else
      match splitBy p cs with
      | [] => [[c]]
      | l :: ls => (c :: l) :: ls

private def dropReturn : (reversed : List Char) → List Char
  | '\r' :: cs => cs
  | cs => cs

private def linesFrom (reversed : List Char) : List Char → List (List Char)
  | [] => if reversed.isEmpty then [] else [reversed.reverse]
  | c :: cs =>
    if c = '\n' then (dropReturn reversed).reverse :: linesFrom [] cs
    else linesFrom (c :: reversed) cs

/-- The lines of a text; each ends with a line feed, or a carriage return and a line feed, or with
the text. -/
def lines (s : List Char) : List (List Char) := linesFrom [] s

private theorem dropReturn_eq (reversed : List Char) :
    dropReturn reversed = reversed ∨ reversed = '\r' :: dropReturn reversed := by
  unfold dropReturn
  split
  · exact .inr rfl
  · exact .inl rfl

private theorem linesFrom_append {line : List Char} (h : '\n' ∉ line) (reversed rest : List Char) :
    linesFrom reversed (line ++ rest) = linesFrom (line.reverse ++ reversed) rest := by
  induction line generalizing reversed with
  | nil => rfl
  | cons c line ih =>
    rw [List.mem_cons, not_or] at h
    rw [List.cons_append, linesFrom, if_neg (Ne.symm h.1), ih h.2, List.reverse_cons,
      List.append_assoc, List.singleton_append]

/-- The first line of a text; a carriage return at its end does not belong to it. -/
theorem lines_append {line : List Char} (h : '\n' ∉ line) (rest : List Char) :
    ∃ kept, lines (line ++ '\n' :: rest) = kept :: lines rest ∧
      (kept = line ∨ line = kept ++ ['\r']) := by
  refine ⟨(dropReturn line.reverse).reverse, ?_, ?_⟩
  · rw [lines, linesFrom_append h, List.append_nil, linesFrom, if_pos rfl]
    rfl
  · rcases dropReturn_eq line.reverse with hkept | hkept
    · rw [hkept, List.reverse_reverse]
      exact .inl rfl
    · have hline := congrArg List.reverse hkept
      rw [List.reverse_reverse, List.reverse_cons] at hline
      exact .inr hline

/-- A text without line feeds is its own only line. -/
theorem lines_of_notMem {line : List Char} (h : '\n' ∉ line) :
    lines line = if line.isEmpty then [] else [line] := by
  have hlines := linesFrom_append h [] []
  rwa [List.append_nil, List.append_nil, linesFrom, List.isEmpty_reverse,
    List.reverse_reverse] at hlines

/-- What is read line by line from lines that were joined, if an empty line is not read and a
carriage return at the end of a line makes no difference. -/
theorem filterMap_lines {β : Type} {f : List Char → Option β} (hnil : f [] = none)
    (hreturn : ∀ line, f (line ++ ['\r']) = f line) {ls : List (List Char)}
    (hls : ∀ line ∈ ls, '\n' ∉ line) :
    (lines (['\n'].intercalate ls)).filterMap f = ls.filterMap f := by
  induction ls with
  | nil => rfl
  | cons line ls ih =>
    obtain ⟨hline, hls⟩ := List.forall_mem_cons.mp hls
    cases ls with
    | nil =>
      rw [List.intercalate_singleton, lines_of_notMem hline]
      split
      next hempty => rw [List.isEmpty_iff.mp hempty, List.filterMap_cons_none hnil]
      next => rfl
    | cons next ls =>
      obtain ⟨kept, hlines, hkept⟩ := lines_append hline (['\n'].intercalate (next :: ls))
      have hf : f kept = f line := by
        rcases hkept with rfl | rfl
        · rfl
        · exact (hreturn kept).symm
      rw [List.intercalate_cons_cons, List.append_assoc, List.singleton_append, hlines,
        List.filterMap_cons, hf, ih hls]
      rfl

theorem contains_iff {word s : List Char} : contains word s = true ↔ word <:+: s := by
  rw [contains]
  induction s with
  | nil =>
    rw [cut?, Option.isSome_map, isSome_after?, List.infix_nil, List.prefix_nil]
  | cons c cs ih =>
    rw [List.infix_cons_iff, ← isSome_after?, cut?]
    split
    next h => exact iff_of_true rfl (.inl (by rw [h]; rfl))
    next h => rw [Option.isSome_map, ih, h, Option.isSome_none, or_iff_right Bool.false_ne_true]

/-- A text is cut at the first place of a character. -/
theorem cut?_append {c : Char} {before : List Char} (h : c ∉ before) (rest : List Char) :
    cut? [c] (before ++ c :: rest) = some (before, rest) := by
  induction before with
  | nil => rw [List.nil_append, cut?, after?, if_pos rfl, after?]
  | cons d before ih =>
    rw [List.mem_cons, not_or] at h
    rw [List.cons_append, cut?, after?, if_neg h.1, ih h.2]
    rfl

/-- Up to the first place of its first character there is no place of the word. -/
theorem cut?_append_of_head {c : Char} {before : List Char} (h : c ∉ before)
    (word rest : List Char) :
    cut? (c :: word) (before ++ rest) =
      (cut? (c :: word) rest).map fun p => (before ++ p.1, p.2) := by
  induction before with
  | nil =>
    rw [List.nil_append]
    cases cut? (c :: word) rest <;> rfl
  | cons d before ih =>
    rw [List.mem_cons, not_or] at h
    rw [List.cons_append, cut?, after?, if_neg h.1, ih h.2]
    cases cut? (c :: word) rest <;> rfl

theorem splitBy_cons_of_pos {p : Char → Bool} {c : Char} (h : p c = true) (s : List Char) :
    splitBy p (c :: s) = [] :: splitBy p s := by
  rw [splitBy, if_pos h]

/-- The rest of a text behind a word without separators, when the text goes on with the pieces
`l :: ls`. -/
theorem splitBy_append {p : Char → Bool} {word s l : List Char} {ls : List (List Char)}
    (hword : ∀ c ∈ word, p c = false) (hs : splitBy p s = l :: ls) :
    splitBy p (word ++ s) = (word ++ l) :: ls := by
  induction word with
  | nil => exact hs
  | cons c word ih =>
    obtain ⟨hc, hword⟩ := List.forall_mem_cons.mp hword
    rw [List.cons_append, splitBy, ih hword, if_neg (by simp [hc])]
    rfl

theorem exists_splitBy (p : Char → Bool) (s : List Char) : ∃ l ls, splitBy p s = l :: ls := by
  cases s with
  | nil => exact ⟨[], [], rfl⟩
  | cons c cs =>
    rw [splitBy]
    split
    · exact ⟨[], _, rfl⟩
    · split
      · exact ⟨[c], [], rfl⟩
      · exact ⟨_, _, rfl⟩

/-- A word that stands at the beginning of a text before one of its other characters. -/
theorem prefix_append_cons {word a b : List Char} {c : Char} (hc : c ∉ word)
    (h : word <+: a ++ c :: b) : word <+: a := by
  rcases List.prefix_or_prefix_of_prefix h (List.prefix_append a (c :: b)) with h' | ⟨t, rfl⟩
  · exact h'
  · rw [List.prefix_append_right_inj, List.prefix_cons_iff] at h
    obtain rfl | ⟨t, rfl, -⟩ := h
    · exact ⟨[], by simp only [List.append_nil]⟩
    · exact absurd (List.mem_append_right a List.mem_cons_self) hc

/-- A word without the character between two texts occurs in one of them if it occurs at all. -/
theorem infix_append_cons {word a b : List Char} {c : Char} (hc : c ∉ word)
    (h : word <:+: a ++ c :: b) : word <:+: a ∨ word <:+: b := by
  rw [List.infix_append_iff_ne_nil] at h
  obtain h | h | ⟨l₁, l₂, -, hne, rfl, -, hprefix⟩ := h
  · exact .inl h
  · rw [List.infix_cons_iff, List.prefix_cons_iff] at h
    obtain (rfl | ⟨t, rfl, -⟩) | h := h
    · exact .inl List.nil_infix
    · exact absurd List.mem_cons_self hc
    · exact .inr h
  · obtain rfl | ⟨t, rfl, -⟩ := List.prefix_cons_iff.mp hprefix
    · exact absurd rfl hne
    · exact absurd (List.mem_append_right l₁ List.mem_cons_self) hc

end Chars

namespace Text

def startsWith (start s : String) : Bool := (Chars.after? start.toList s.toList).isSome

def after? (start s : String) : Option String :=
  (Chars.after? start.toList s.toList).map String.ofList

def cut? (word s : String) : Option (String × String) :=
  (Chars.cut? word.toList s.toList).map fun p => (.ofList p.1, .ofList p.2)

def contains (word s : String) : Bool := Chars.contains word.toList s.toList

def occurrences (word s : String) : Nat := Chars.occurrences word.toList 0 s.toList

def lines (s : String) : List String := (Chars.lines s.toList).map String.ofList

/-- At most `max` characters, followed by three dots if any were left out. -/
def clip (max : Nat) (s : String) : String :=
  if s.toList.length > max then .ofList (s.toList.take max) ++ "..." else s

def joined (between : String) (parts : List String) : String := between.intercalate parts

theorem toList_joined (between : String) (parts : List String) :
    (joined between parts).toList = between.toList.intercalate (parts.map String.toList) :=
  String.toList_intercalate

theorem isBlankText_joined (between : String) {parts : List String} {part : String}
    (hm : part ∈ parts) (h : isBlankText part = false) :
    isBlankText (joined between parts) = false := by
  unfold joined
  induction parts with
  | nil => cases hm
  | cons first rest ih =>
    cases rest with
    | nil =>
      rw [String.intercalate_singleton, ← List.mem_singleton.mp hm]
      exact h
    | cons next rest =>
      rw [String.intercalate_cons_cons, isBlankText_append, isBlankText_append]
      rcases List.mem_cons.mp hm with rfl | hm
      · rw [h]
        rfl
      · rw [ih hm, Bool.and_false]

end Text
end Switchboard
