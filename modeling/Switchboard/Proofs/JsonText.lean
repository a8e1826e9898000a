import Switchboard.Json.Printer
import Switchboard.Proofs.NumberText

/-! Values as JSON texts: every text that is printed for a value is read, and as one tree, in which
the members stand in their order. -/
namespace Switchboard.Json

/-- What a character is read as where it is printed in a string: only control characters without an
escape of their own are read as units. -/
def piece (c : Char) : Piece :=
  if c.toNat < 0x20 ∧ c ∉ ['\x08', '\x0c', '\n', '\r', '\t'] then .unit c.toNat else .char c

def pieces (s : String) : List Piece := s.toList.map piece

theorem hexValue?_hexDigit : ∀ n < 16, hexValue? (hexDigit n) = some n := by decide

theorem lexString_plain {c : Char} (hquote : c ≠ '"') (hslash : c ≠ '\\')
    (hcontrol : ¬ c.toNat < 0x20) (rest : List Char) :
    lexString (c :: rest) = (lexString rest).map fun p => (.char c :: p.1, p.2) := by
  rw [lexString.eq_def]
  split
  case h_1 heq => cases heq
  case h_2 heq => exact absurd (List.cons.inj heq).1 hquote
  case h_3 heq => exact absurd (List.cons.inj heq).1 hslash
  case h_4 heq => exact absurd (List.cons.inj heq).1 hslash
  case h_5 heq =>
    obtain ⟨rfl, rfl⟩ := List.cons.inj heq
    rw [if_neg (not_or.mpr ⟨hcontrol, hslash⟩)]
    cases lexString rest <;> rfl

theorem lexString_named {e c : Char} (he : e ≠ 'u') (hc : escaped? e = some c)
    (rest : List Char) :
    lexString ('\\' :: e :: rest) = (lexString rest).map fun p => (.char c :: p.1, p.2) := by
  rw [lexString, hc]
  · cases lexString rest <;> rfl
  · exact fun _ _ _ _ _ hu _ => he hu

theorem hexValue?_zero : hexValue? '0' = some 0 := rfl

theorem lexString_escape (c : Char) (rest : List Char) :
    lexString (escape c ++ rest) = (lexString rest).map fun p => (piece c :: p.1, p.2) := by
  unfold escape
  split
  case h_8 hquote hslash h8 hc hn hr ht =>
    have hnamed : c ∉ ['\x08', '\x0c', '\n', '\r', '\t'] := by
      simp only [List.mem_cons, List.not_mem_nil, or_false, not_or]
      exact ⟨h8, hc, hn, hr, ht⟩
    split
    next hcontrol =>
      have hhigh := hexValue?_hexDigit (c.toNat / 16) (by omega)
      have hlow := hexValue?_hexDigit (c.toNat % 16) (Nat.mod_lt _ (by decide))
      have hvalue : (0 * 16 + 0) * 256 + c.toNat / 16 * 16 + c.toNat % 16 = c.toNat := by omega
      rw [piece, if_pos ⟨hcontrol, hnamed⟩]
      simp only [List.cons_append, List.nil_append]
      rw [lexString, hhigh, hlow, hexValue?_zero]
      dsimp only [Option.bind_eq_bind, Option.bind_some]
      rw [hvalue]
      cases lexString rest <;> rfl
    next hplain =>
      rw [piece, if_neg fun h => hplain h.1]
      exact lexString_plain hquote hslash hplain rest
  all_goals exact lexString_named (by decide) rfl rest

theorem lexString_flatMap (s rest : List Char) :
    lexString (s.flatMap escape ++ '"' :: rest) = some (s.map piece, rest) := by
  induction s with
  | nil => rfl
  | cons c s ih =>
    rw [List.flatMap_cons, List.append_assoc, lexString_escape, ih]
    rfl

/-- A string is read as it is printed. -/
theorem lexOne_stringChars (s : String) (rest : List Char) :
    lexOne (stringChars s ++ rest) = some (.str (pieces s), rest) := by
  rw [stringChars, List.append_assoc, List.cons_append]
  change (lexString (s.toList.flatMap escape ++ '"' :: rest)).map _ = _
  rw [lexString_flatMap]
  rfl

theorem textOf?_unit {n : Nat} (hn : n < 0xD800) (ps : List Piece) :
    textOf? (.unit n :: ps) = (textOf? ps).map (Char.ofNat n :: ·) := by
  have hsurrogate : ¬ (0xD800 ≤ n ∧ n < 0xDC00) := by omega
  have hhalf : ¬ (0xDC00 ≤ n ∧ n < 0xE000) := by omega
  have hany : ¬ (0xD800 ≤ n ∧ n < 0xE000) := by omega
  cases ps with
  | nil => exact if_neg hany
  | cons p ps =>
    cases p with
    | char c => exact if_neg hany
    | unit l => rw [textOf?, if_neg hsurrogate, if_neg hhalf]

theorem textOf?_map_piece (s : List Char) : textOf? (s.map piece) = some s := by
  induction s with
  | nil => rfl
  | cons c s ih =>
    rw [List.map_cons, piece]
    split
    next h =>
      rw [textOf?_unit (by omega), ih, Char.ofNat_toNat]
      rfl
    next =>
      rw [textOf?, ih]
      rfl

theorem text?_pieces (s : String) : text? (pieces s) = some s := by
  rw [text?, pieces, textOf?_map_piece, Option.map_some, String.ofList_toList]

mutual
def tree : Json → Tree
  | .null => .null
  | .bool b => .bool b
  | .num n => .num n.numeral
  | .str s => .str (pieces s)
  | .arr vs => .arr (itemTrees vs)
  | .obj ms => .obj (memberTrees ms)

def itemTrees : List Json → List Tree
  | [] => []
  | v :: vs => tree v :: itemTrees vs

def memberTrees : List (String × Json) → List (List Piece × Tree)
  | [] => []
  | (k, v) :: ms => (pieces k, tree v) :: memberTrees ms
end

theorem ofMembers?_pair (depth : Nat) (k k' : String) (t t' : Tree) :
    ofMembers? depth [(pieces k, t), (pieces k', t')] =
      (ofTree? depth t).bind fun v => (ofTree? depth t').map fun v' => [(k, v), (k', v')] := by
  rw [ofMembers?, ofMembers?, ofMembers?, text?_pieces, text?_pieces]
  cases ofTree? depth t with
  | none => rfl
  | some v => cases ofTree? depth t' <;> rfl

/-- The tree of a text whose part before this one was read to some point. -/
def readFrom (stack : List Frame) (a : Awaiting) (s : List Char) : Option Tree :=
  (lex s).bind (assemble stack a)

section
variable {stack stack' : List Frame} {a a' : Awaiting} {s rest : List Char} {l : Lexeme}

theorem readFrom_step (hl : lexOne s = some (l, rest))
    (ha : advance stack a l = some (stack', a')) :
    readFrom stack a s = readFrom stack' a' rest := by
  rw [readFrom, lex_of_lexOne hl, readFrom]
  cases lex rest with
  | none => rfl
  | some ls =>
    change assemble stack a (l :: ls) = assemble stack' a' ls
    rw [assemble, ha]

theorem lexOne_chars (v : Json) (hrest : EndsNumber rest) :
    ∃ l r, lexOne (chars v ++ rest) = some (l, r) ∧ l ≠ .closeArray := by
  cases v with
  | null => exact ⟨_, _, rfl, nofun⟩
  | bool b => cases b <;> exact ⟨_, _, rfl, nofun⟩
  | num n => exact ⟨_, _, n.lexOne_chars hrest, nofun⟩
  | str s => exact ⟨_, _, lexOne_stringChars s rest, nofun⟩
  | arr vs => cases vs <;> exact ⟨_, _, rfl, nofun⟩
  | obj ms => cases ms <;> exact ⟨_, _, rfl, nofun⟩

theorem advance_firstItem (hl : l ≠ .closeArray) :
    advance stack .firstItem l = advance (.items [] :: stack) .value l := by
  cases l <;> first | rfl | exact absurd rfl hl

/-- A value stands at the beginning of an array as it stands after a comma. -/
theorem readFrom_firstItem (v : Json) (hrest : EndsNumber rest) :
    readFrom stack .firstItem (chars v ++ rest) =
      readFrom (.items [] :: stack) .value (chars v ++ rest) := by
  obtain ⟨l, r, hl, hne⟩ := lexOne_chars v hrest
  rw [readFrom, readFrom, lex_of_lexOne hl]
  cases lex r with
  | none => rfl
  | some ls =>
    change assemble stack .firstItem (l :: ls) = assemble (.items [] :: stack) .value (l :: ls)
    rw [assemble, assemble, advance_firstItem hne]

end

theorem endsNumber_itemChars (vs : List Json) (rest : List Char) :
    EndsNumber (itemChars vs ++ rest) := by
  intro c hc
  cases vs <;> (obtain rfl := Option.some.inj hc; decide)

theorem endsNumber_memberChars (ms : List (String × Json)) (rest : List Char) :
    EndsNumber (memberChars ms ++ rest) := by
  intro c hc
  cases ms <;> (obtain rfl := Option.some.inj hc; decide)

mutual
-- The induction is on the value, for every stack: the parts of a container are read with its frame
-- on top of the open ones.
/-- Where a value may stand, its text is read as its tree. -/
theorem readFrom_chars : ∀ (v : Json) {stack : List Frame} {rest : List Char}, EndsNumber rest →
    readFrom stack .value (chars v ++ rest) = readFrom stack (.after v.tree) rest
  | .null, _, _, _ => readFrom_step rfl rfl
  | .bool true, _, _, _ => readFrom_step rfl rfl
  | .bool false, _, _, _ => readFrom_step rfl rfl
  | .num n, _, _, hrest => readFrom_step (n.lexOne_chars hrest) rfl
  | .str s, _, _, _ => readFrom_step (lexOne_stringChars s _) rfl
  | .arr [], _, _, _ => (readFrom_step rfl rfl).trans (readFrom_step rfl rfl)
  | .arr (v :: vs), stack, rest, _ => by
    have hitems := endsNumber_itemChars vs rest
    calc readFrom stack .value (chars (.arr (v :: vs)) ++ rest)
        = readFrom stack .firstItem (chars v ++ (itemChars vs ++ rest)) :=
          readFrom_step (l := .openArray) (by rw [chars, List.append_assoc]; rfl) rfl
      _ = readFrom (.items [] :: stack) .value (chars v ++ (itemChars vs ++ rest)) :=
          readFrom_firstItem v hitems
      _ = readFrom (.items [] :: stack) (.after v.tree) (itemChars vs ++ rest) :=
          readFrom_chars v hitems
      _ = readFrom stack (.after (Json.arr (v :: vs)).tree) rest := readFrom_itemChars vs
  | .obj [], _, _, _ => (readFrom_step rfl rfl).trans (readFrom_step rfl rfl)
  | .obj ((k, v) :: ms), stack, rest, _ => by
    have hmembers := endsNumber_memberChars ms rest
    calc readFrom stack .value (chars (.obj ((k, v) :: ms)) ++ rest)
        = readFrom stack .firstKey
            (stringChars k ++ ':' :: (chars v ++ (memberChars ms ++ rest))) :=
          readFrom_step (l := .openObject) (by
            rw [chars]
            simp only [List.cons_append, List.append_assoc]
            rfl) rfl
      _ = readFrom stack (.colon [] (pieces k)) (':' :: (chars v ++ (memberChars ms ++ rest))) :=
          readFrom_step (lexOne_stringChars k _) rfl
      _ = readFrom (.members [] (pieces k) :: stack) .value (chars v ++ (memberChars ms ++ rest)) :=
          readFrom_step rfl rfl
      _ = readFrom (.members [] (pieces k) :: stack) (.after v.tree) (memberChars ms ++ rest) :=
          readFrom_chars v hmembers
      _ = readFrom stack (.after (Json.obj ((k, v) :: ms)).tree) rest := readFrom_memberChars ms

theorem readFrom_itemChars : ∀ (vs : List Json) {done : List Tree} {t : Tree} {stack : List Frame}
    {rest : List Char}, readFrom (.items done :: stack) (.after t) (itemChars vs ++ rest) =
      readFrom stack (.after (.arr ((t :: done).reverse ++ itemTrees vs))) rest
  | [], done, t, stack, rest => by
    rw [itemTrees, List.append_nil]
    exact readFrom_step rfl rfl
  | v :: vs, done, t, stack, rest => by
    calc readFrom (.items done :: stack) (.after t) (itemChars (v :: vs) ++ rest)
        = readFrom (.items (t :: done) :: stack) .value (chars v ++ (itemChars vs ++ rest)) :=
          readFrom_step (l := .comma) (by rw [itemChars, List.append_assoc]; rfl) rfl
      _ = readFrom (.items (t :: done) :: stack) (.after v.tree) (itemChars vs ++ rest) :=
          readFrom_chars v (endsNumber_itemChars vs rest)
      _ = readFrom stack (.after (.arr ((v.tree :: t :: done).reverse ++ itemTrees vs))) rest :=
          readFrom_itemChars vs
      _ = readFrom stack (.after (.arr ((t :: done).reverse ++ itemTrees (v :: vs)))) rest := by
          rw [itemTrees, List.reverse_cons, List.append_assoc, List.singleton_append]

theorem readFrom_memberChars : ∀ (ms : List (String × Json)) {done : List (List Piece × Tree)}
    {k : List Piece} {t : Tree} {stack : List Frame} {rest : List Char},
    readFrom (.members done k :: stack) (.after t) (memberChars ms ++ rest) =
      readFrom stack (.after (.obj (((k, t) :: done).reverse ++ memberTrees ms))) rest
  | [], done, k, t, stack, rest => by
    rw [memberTrees, List.append_nil]
    exact readFrom_step rfl rfl
  | (k', v) :: ms, done, k, t, stack, rest => by
    let done' := (k, t) :: done
    calc readFrom (.members done k :: stack) (.after t) (memberChars ((k', v) :: ms) ++ rest)
        = readFrom stack (.key done')
            (stringChars k' ++ ':' :: (chars v ++ (memberChars ms ++ rest))) :=
          readFrom_step (l := .comma) (by
            rw [memberChars]
            simp only [List.cons_append, List.append_assoc]
            rfl) rfl
      _ = readFrom stack (.colon done' (pieces k'))
            (':' :: (chars v ++ (memberChars ms ++ rest))) :=
          readFrom_step (lexOne_stringChars k' _) rfl
      _ = readFrom (.members done' (pieces k') :: stack) .value
            (chars v ++ (memberChars ms ++ rest)) := readFrom_step rfl rfl
      _ = readFrom (.members done' (pieces k') :: stack) (.after v.tree) (memberChars ms ++ rest) :=
          readFrom_chars v (endsNumber_memberChars ms rest)
      _ = readFrom stack (.after (.obj (((pieces k', v.tree) :: done').reverse ++ memberTrees ms)))
            rest := readFrom_memberChars ms
      _ = readFrom stack (.after (.obj (done'.reverse ++ memberTrees ((k', v) :: ms)))) rest := by
          rw [memberTrees, List.reverse_cons, List.append_assoc, List.singleton_append]
end

/-- The text of a value is one tree. -/
theorem Tree.parse?_render (v : Json) : Tree.parse? (render v) = some v.tree := by
  have hread : readFrom [] .value (chars v ++ []) = readFrom [] (.after v.tree) [] :=
    readFrom_chars v nofun
  rw [List.append_nil] at hread
  rw [Tree.parse?, render, String.toList_ofList]
  exact hread

theorem parse?_render (v : Json) : parse? (render v) = ofTree? maxDepth v.tree := by
  rw [parse?, Tree.parse?_render]
  rfl

theorem exists_chars_obj (ms : List (String × Json)) :
    ∃ inner, chars (.obj ms) = '\x7b' :: (inner ++ ['\x7d']) := by
  have hend (ms : List (String × Json)) : ∃ inner, memberChars ms = inner ++ ['\x7d'] := by
    induction ms with
    | nil => exact ⟨[], rfl⟩
    | cons m ms ih =>
      obtain ⟨inner, hinner⟩ := ih
      exact ⟨',' :: stringChars m.1 ++ ':' :: chars m.2 ++ inner, by
        rw [memberChars, hinner]
        simp only [List.cons_append, List.append_assoc]⟩
  cases ms with
  | nil => exact ⟨[], rfl⟩
  | cons m ms =>
    obtain ⟨inner, hinner⟩ := hend ms
    exact ⟨stringChars m.1 ++ ':' :: chars m.2 ++ inner, by
      rw [chars, hinner]
      simp only [List.cons_append, List.append_assoc]⟩

end Switchboard.Json
