import Mathlib.Data.List.Basic
import Switchboard.Route.Intent

/-! Intents that are written one a line, a skill and its task with a bar between: each is read as it
was written, but for the quotes at the end of its task. -/
namespace Switchboard

def IsNameChar (c : Char) : Prop := c.isLower = true ∨ c.isDigit = true ∨ c = '-'

instance (c : Char) : Decidable (IsNameChar c) := inferInstanceAs (Decidable (_ ∨ _ ∨ _))

/-- A lower-case ASCII letter, and then such letters, digits and hyphens. -/
def IsSkillName (name : String) : Prop :=
  ∃ first rest, name.toList = first :: rest ∧ first.isLower = true ∧ ∀ c ∈ rest, IsNameChar c

namespace Intent

def IsNumber (s : List Char) : Prop :=
  ∃ digits marks blanks, s = digits ++ (marks ++ blanks) ∧ digits ≠ [] ∧
    (∀ c ∈ digits, c.isDigit = true) ∧ (∀ c ∈ marks, isListMark c = true) ∧
    blanks.all isBlank = true

/-- An intent as it is written on a line, behind a list number or not. -/
structure Row where
  number : String
  intent : Intent

def Row.line (r : Row) : String := r.number ++ r.intent.skill ++ "|" ++ r.intent.task

/-- The line is one line and means a skill of the catalog, with a task that is not empty and has no
blanks at its ends. -/
structure Row.Valid (c : Catalog) (r : Row) : Prop where
  number : r.number = "" ∨ IsNumber r.number.toList
  skill : r.intent.skill ∈ c.names
  task : r.intent.task ≠ ""
  trimmed : Text.trim r.intent.task = r.intent.task
  oneLine : '\n' ∉ r.line.toList

/-- A text without the quotes at its end. -/
def unquoted (s : List Char) : List Char := (s.reverse.dropWhile isQuoteMark).reverse

/-- What is read for a task: it loses the quotes at its end, and the blanks before these. The
message stands for a task of which nothing is left. -/
def taskRead (message task : String) : String :=
  let t := Chars.trim (unquoted task.toList)
  if t.isEmpty then message else .ofList t

def EndsQuoted (task : String) : Prop := task.toList.getLast?.any isQuoteMark = true

instance (task : String) : Decidable (EndsQuoted task) := inferInstanceAs (Decidable (_ = true))

variable {c : Catalog} {message : String} {d : Char}

theorem mem_of_isListMark (h : isListMark d = true) : d ∈ ['.', '、', ')', '-', '*', '→'] := by
  simpa [isListMark, or_assoc] using h

theorem mem_of_isQuoteMark (h : isQuoteMark d = true) : d ∈ ['\x60', '"', '\'', '“', '”'] := by
  simpa [isQuoteMark, or_assoc] using h

theorem mem_of_isBar (h : isBar d = true) : d ∈ ['|', '｜'] := by
  simpa [isBar] using h

/-- A character of one class is not of another, finite one if this has none of the first. -/
theorem eq_false_of_mem {p q : Char → Bool} (chars : List Char) (hq : q d = true → d ∈ chars)
    (hchars : chars.any p = false) (hp : p d = true) : q d = false :=
  Bool.eq_false_iff.mpr fun hd => List.any_eq_false.mp hchars d (hq hd) hp

theorem isListMark_of_isBlank (h : isBlank d = true) : isListMark d = false :=
  eq_false_of_mem _ mem_of_isListMark rfl h

theorem isListMark_of_isLower (h : d.isLower = true) : isListMark d = false :=
  eq_false_of_mem _ mem_of_isListMark rfl h

theorem isQuoteMark_of_isLower (h : d.isLower = true) : isQuoteMark d = false :=
  eq_false_of_mem _ mem_of_isQuoteMark rfl h

theorem isDigit_of_isListMark (h : isListMark d = true) : d.isDigit = false :=
  Bool.eq_false_iff.mpr fun hd => by
    simp [eq_false_of_mem _ mem_of_isListMark rfl hd] at h

theorem isDigit_eq (d : Char) : ('0' ≤ d && d ≤ '9') = d.isDigit := by
  rw [Bool.eq_iff_iff, Char.isDigit_iff_toNat, Bool.and_eq_true, decide_eq_true_iff,
    decide_eq_true_iff]
  rfl

theorem range_of_isDigit (h : d.isDigit = true) : 48 ≤ d.toNat ∧ d.toNat ≤ 57 :=
  Char.isDigit_iff_toNat.mp h

theorem range_of_isLower (h : d.isLower = true) : 97 ≤ d.toNat ∧ d.toNat ≤ 122 :=
  ⟨of_decide_eq_true (Bool.and_eq_true_iff.mp h).1, of_decide_eq_true (Bool.and_eq_true_iff.mp h).2⟩

theorem range_of_isBlank (h : isBlank d = true) : d.toNat ≤ 32 ∨ 128 ≤ d.toNat := by
  simp only [isBlank, Bool.or_eq_true, Bool.and_eq_true, decide_eq_true_iff, beq_iff_eq] at h
  omega

theorem range_of_isNameChar (h : IsNameChar d) : 45 ≤ d.toNat ∧ d.toNat ≤ 122 := by
  rcases h with hlower | hdigit | rfl
  · have hrange := range_of_isLower hlower
    omega
  · have hrange := range_of_isDigit hdigit
    omega
  · decide

theorem isDigit_of_isLower (h : d.isLower = true) : d.isDigit = false := by
  rw [Bool.eq_false_iff]
  intro hdigit
  have hrange := range_of_isLower h
  have hrange' := range_of_isDigit hdigit
  omega

theorem isBlank_of_range (h : 33 ≤ d.toNat ∧ d.toNat ≤ 127) : isBlank d = false := by
  rw [Bool.eq_false_iff]
  intro hblank
  have hrange := range_of_isBlank hblank
  omega

theorem isBlank_of_isDigit (h : d.isDigit = true) : isBlank d = false :=
  isBlank_of_range (by have hrange := range_of_isDigit h; omega)

theorem isDigit_of_isBlank (h : isBlank d = true) : d.isDigit = false :=
  Bool.eq_false_iff.mpr fun hdigit => by simp [isBlank_of_isDigit hdigit] at h

theorem isBlank_of_isNameChar (h : IsNameChar d) : isBlank d = false :=
  isBlank_of_range (by have hrange := range_of_isNameChar h; omega)

theorem isBar_of_isNameChar (h : IsNameChar d) : isBar d = false := by
  have hrange := range_of_isNameChar h
  exact eq_false_of_mem _ mem_of_isBar (p := fun c => 45 ≤ c.toNat && c.toNat ≤ 122) rfl
    (by simpa using hrange)

theorem notCapital_of_isNameChar (h : IsNameChar d) :
    ¬ (0x41 ≤ d.toNat ∧ d.toNat ≤ 0x5A) := by
  intro hcapital
  rcases h with hlower | hdigit | rfl
  · have hrange := range_of_isLower hlower
    omega
  · have hrange := range_of_isDigit hdigit
    omega
  · revert hcapital
    decide

theorem lower_trim_of_isSkillName {name : String} (h : IsSkillName name) :
    Text.lower (Text.trim name) = name := by
  obtain ⟨first, rest, hname, hfirst, hrest⟩ := h
  have hchars : ∀ c ∈ name.toList, IsNameChar c := by
    rw [hname]
    exact List.forall_mem_cons.mpr ⟨.inl hfirst, hrest⟩
  have htrim : Text.trim name = name := by
    have hself : Chars.trim name.toList = name.toList := Chars.trim_eq_self
      (fun c hc => isBlank_of_isNameChar (hchars c (List.mem_of_mem_head? hc)))
      (fun c hc => isBlank_of_isNameChar (hchars c (List.mem_of_mem_getLast? hc)))
    rw [Text.trim, hself, String.ofList_toList]
  rw [htrim, Text.lower_eq_self fun c hc => ⟨?_, notCapital_of_isNameChar (hchars c hc)⟩]
  have hrange := range_of_isNameChar (hchars c hc)
  omega

/-- The name of a skill means that skill, also where it is part of other names. -/
theorem match?_of_mem {name : String} (hname : IsSkillName name) (hmem : name ∈ c.names) :
    ∃ skill, c.match? name = some skill ∧ skill.name = name := by
  obtain ⟨skill, hskill, hsame⟩ := List.mem_map.mp hmem
  have hsome : (c.get? name).isSome = true :=
    List.find?_isSome.mpr ⟨skill, hskill, by exact decide_eq_true hsame⟩
  obtain ⟨found, hfound⟩ := Option.isSome_iff_exists.mp hsome
  have hfoundName := List.find?_some hfound
  refine ⟨found, ?_, of_decide_eq_true hfoundName⟩
  have hne : name.isEmpty = false := by
    obtain ⟨first, rest, hcons, -⟩ := hname
    rw [Bool.eq_false_iff, Ne, String.isEmpty_iff]
    rintro rfl
    cases hcons
  rw [Catalog.match?, lower_trim_of_isSkillName hname, hne, hfound]
  rfl

/-- A number is taken away whole, and of what follows it nothing but the quotes at its end. -/
theorem cleanLine_append {number rest : List Char} {first : Char}
    (hnumber : number = [] ∨ IsNumber number) (hfirst : first.isLower = true)
    (hlast : ∀ c ∈ (first :: rest).getLast?, isBlank c = false) :
    cleanLine (number ++ first :: rest) = Chars.trim (unquoted (first :: rest)) := by
  have hhead {p : Char → Bool} (hp : p first = false) :
      ∀ c ∈ (first :: rest).head?, p c = false := fun c hc => by
    obtain rfl := Option.some.inj hc
    exact hp
  have hblank : isBlank first = false := isBlank_of_isNameChar (.inl hfirst)
  have htrim : Chars.trim (first :: rest) = first :: rest := Chars.trim_eq_self (hhead hblank) hlast
  have hquotes : Chars.trimBy isQuoteMark (first :: rest) = unquoted (first :: rest) := by
    rw [Chars.trimBy, Chars.dropWhile_eq_self (hhead (isQuoteMark_of_isLower hfirst)), unquoted]
  unfold cleanLine
  simp only [isDigit_eq]
  rcases hnumber with rfl | ⟨digits, marks, blanks, rfl, hne, hdigits, hmarks, hblanks⟩
  · rw [List.nil_append, htrim, Chars.dropWhile_eq_self (hhead (isDigit_of_isLower hfirst)),
      Chars.dropWhile_eq_self (hhead (isListMark_of_isLower hfirst)), htrim, hquotes]
  · -- Digits, list marks and blanks are disjoint, so each part is taken up to where the next begins.
    have hblanks' := List.all_eq_true.mp hblanks
    have hline : Chars.trim (digits ++ (marks ++ blanks) ++ first :: rest) =
        digits ++ (marks ++ (blanks ++ first :: rest)) := by
      have hstart : ∀ c ∈ (digits ++ (marks ++ blanks) ++ first :: rest).head?,
          isBlank c = false := by
        obtain ⟨d, ds, rfl⟩ := List.exists_cons_of_ne_nil hne
        intro c hc
        obtain rfl := Option.some.inj hc
        exact isBlank_of_isDigit (hdigits _ List.mem_cons_self)
      have hend := List.getLast?_eq_some_getLast (List.cons_ne_nil first rest)
      rw [Chars.trim_eq_self hstart, List.append_assoc, List.append_assoc]
      rwa [List.getLast?_append, hend, Option.some_or, ← hend]
    have hafterDigits := Chars.forall_head?_append (fun c hc => isDigit_of_isListMark (hmarks c hc))
      (Chars.forall_head?_append (fun c hc => isDigit_of_isBlank (hblanks' c hc))
        (hhead (isDigit_of_isLower hfirst)))
    have hafterMarks := Chars.forall_head?_append
      (fun c hc => isListMark_of_isBlank (hblanks' c hc)) (hhead (isListMark_of_isLower hfirst))
    have hafterBlanks : Chars.trim (blanks ++ first :: rest) = first :: rest := by
      rw [Chars.trim, Chars.trimStart_append hblanks, ← Chars.trim, htrim]
    rw [hline, List.dropWhile_append_of_pos hdigits, Chars.dropWhile_eq_self hafterDigits,
      List.dropWhile_append_of_pos hmarks, Chars.dropWhile_eq_self hafterMarks, hafterBlanks,
      hquotes]

theorem splitBar_append {name task : List Char} {bar : Char} (hname : ∀ c ∈ name, isBar c = false)
    (hbar : isBar bar = true) : splitBar (name ++ bar :: task) = (name, Chars.trim task) := by
  have hpos : ∀ c ∈ name, (!isBar c) = true := fun c hc => by rw [hname c hc]; rfl
  have hneg : ¬ (!isBar bar) = true := by rw [hbar]; exact Bool.false_ne_true
  rw [splitBar, List.takeWhile_append_of_pos hpos, List.dropWhile_append_of_pos hpos,
    List.takeWhile_cons_of_neg (by exact hneg), List.dropWhile_cons_of_neg (by exact hneg),
    List.append_nil]
  rfl

/-- From a line the intent is read that is written on it, but for the quotes at its end. -/
theorem ofLine?_line {r : Row} (hnames : ∀ name ∈ c.names, IsSkillName name) (hr : r.Valid c) :
    ofLine? c message r.line.toList = some ⟨r.intent.skill, taskRead message r.intent.task⟩ := by
  have hskill := hnames _ hr.skill
  obtain ⟨skill, hmatch, hsame⟩ := match?_of_mem hskill hr.skill
  obtain ⟨first, rest, hname, hfirst, hrest⟩ := hskill
  have hchars : ∀ d ∈ first :: rest, IsNameChar d := List.forall_mem_cons.mpr ⟨.inl hfirst, hrest⟩
  have hnumber : r.number.toList = [] ∨ IsNumber r.number.toList :=
    hr.number.imp_left fun h => by rw [h]; rfl
  -- Behind its number the line is the name, a bar and the task; only the task can lose quotes.
  have hline : r.line.toList =
      r.number.toList ++ first :: (rest ++ '|' :: r.intent.task.toList) := by
    rw [Row.line, String.toList_append, String.toList_append, String.toList_append, hname]
    simp
  have htask : Chars.trim r.intent.task.toList = r.intent.task.toList := by
    rw [← String.ofList_inj, String.ofList_toList]
    exact hr.trimmed
  have hparts : first :: (rest ++ '|' :: r.intent.task.toList) =
      (first :: rest ++ ['|']) ++ r.intent.task.toList := by simp
  have hbar {p : Char → Bool} (hp : p '|' = false) :
      ∀ d ∈ (first :: rest ++ ['|']).getLast?, p d = false := fun d hd => by
    rw [List.getLast?_concat] at hd
    obtain rfl := Option.some.inj hd
    exact hp
  have hlast : ∀ d ∈ (first :: (rest ++ '|' :: r.intent.task.toList)).getLast?,
      isBlank d = false := by
    have hne : r.intent.task.toList ≠ [] := fun h => hr.task (String.toList_eq_nil_iff.mp h)
    have hend := List.getLast?_eq_some_getLast hne
    intro d hd
    apply Chars.isBlank_of_getLast?_trim (s := r.intent.task.toList)
    rwa [hparts, List.getLast?_append, hend, Option.some_or, ← hend, ← htask] at hd
  have hquotes : unquoted (first :: (rest ++ '|' :: r.intent.task.toList)) =
      (first :: rest ++ ['|']) ++ unquoted r.intent.task.toList := by
    rw [hparts]
    exact Chars.dropWhile_reverse_append (hbar rfl) _
  have hclean : cleanLine r.line.toList =
      first :: rest ++ '|' :: Chars.trimEnd (unquoted r.intent.task.toList) := by
    rw [hline, cleanLine_append hnumber hfirst hlast, hquotes, Chars.trim, List.cons_append,
      List.cons_append, Chars.trimStart_cons (isBlank_of_isNameChar (.inl hfirst)),
      ← List.cons_append, ← List.cons_append, Chars.trimEnd_append_of_last (hbar rfl),
      List.append_assoc]
    rfl
  have hsplit : splitBar (first :: rest ++ '|' :: Chars.trimEnd (unquoted r.intent.task.toList)) =
      (first :: rest, Chars.trim (unquoted r.intent.task.toList)) := by
    rw [splitBar_append (fun d hd => isBar_of_isNameChar (hchars d hd)) rfl, Chars.trim_trimEnd]
  have hword : String.ofList (first :: rest) = r.intent.skill := by
    rw [← hname, String.ofList_toList]
  unfold ofLine?
  rw [hclean]
  dsimp only
  rw [if_neg (by simp), hsplit, hword]
  dsimp only
  rw [hmatch, Option.map_some, hsame, taskRead]

theorem ofLine?_append_return (line : List Char) :
    ofLine? c message (line ++ ['\r']) = ofLine? c message line := by
  have htrim : Chars.trim (line ++ ['\r']) = Chars.trim line := Chars.trim_append rfl line
  rw [ofLine?, cleanLine, htrim, ← cleanLine, ← ofLine?]

theorem taskRead_eq_self {task : String} (hne : task ≠ "") (htrim : Text.trim task = task)
    (hquoted : ¬ EndsQuoted task) : taskRead message task = task := by
  have hkept : unquoted task.toList = task.toList := by
    have hend : ∀ d ∈ task.toList.reverse.head?, isQuoteMark d = false := fun d hd => by
      rw [List.head?_reverse] at hd
      exact Bool.eq_false_iff.mpr fun hquote => hquoted ((Option.any_eq_true _ _).mpr ⟨d, hd, hquote⟩)
    rw [unquoted, Chars.dropWhile_eq_self hend, List.reverse_reverse]
  have hchars : Chars.trim task.toList = task.toList := by
    rw [← String.ofList_inj, String.ofList_toList]
    exact htrim
  have hsome : task.toList.isEmpty = false := by
    rwa [← Bool.not_eq_true, List.isEmpty_iff, String.toList_eq_nil_iff]
  rw [taskRead, hkept, hchars, hsome, String.ofList_toList]
  rfl

/-- From the lines that intents are written on they are read in order, each with its skill and with
its task but for the quotes at its end; just as they are if no task ends in a quote. -/
theorem parse_rows {rows : List Row} (hnames : ∀ name ∈ c.names, IsSkillName name)
    (hrows : ∀ r ∈ rows, r.Valid c) :
    parse c message (Text.joined "\n" (rows.map Row.line)) =
        rows.map (fun r => ⟨r.intent.skill, taskRead message r.intent.task⟩) ∧
      ((∀ r ∈ rows, ¬ EndsQuoted r.intent.task) →
        parse c message (Text.joined "\n" (rows.map Row.line)) = rows.map (·.intent)) := by
  have hfeeds : ∀ line ∈ (rows.map Row.line).map String.toList, '\n' ∉ line := by
    rw [List.map_map]
    rintro _ hl
    obtain ⟨r, hr, rfl⟩ := List.mem_map.mp hl
    exact (hrows r hr).oneLine
  have hlines := Chars.filterMap_lines (f := ofLine? c message) rfl ofLine?_append_return hfeeds
  have hread : parse c message (Text.joined "\n" (rows.map Row.line)) =
      rows.map (fun r => ⟨r.intent.skill, taskRead message r.intent.task⟩) := by
    rw [parse, Text.toList_joined]
    refine hlines.trans ?_
    rw [List.map_map, List.filterMap_map, ← List.filterMap_eq_map]
    refine List.filterMap_congr fun r hr => ?_
    rw [Function.comp_apply, Function.comp_apply, Function.comp_apply]
    exact ofLine?_line hnames (hrows r hr)
  refine ⟨hread, fun hquoted => hread.trans (List.map_congr_left fun r hr => ?_)⟩
  rw [taskRead_eq_self (hrows r hr).task (hrows r hr).trimmed (hquoted r hr)]

def sampleCatalog : Catalog :=
  ⟨[⟨"pay", "", [], .text ""⟩, ⟨"pay-2", "", [], .text ""⟩], "pay"⟩

theorem isSkillName_sample : ∀ name ∈ sampleCatalog.names, IsSkillName name := by
  have hall : ['a', 'y', '-', '2'].all (decide <| IsNameChar ·) = true := rfl
  have hchars : ∀ c ∈ ['a', 'y', '-', '2'], IsNameChar c :=
    fun c hc => of_decide_eq_true (List.all_eq_true.mp hall c hc)
  have hpay : IsSkillName "pay" :=
    ⟨'p', ['a', 'y'], rfl, rfl, fun c hc => hchars c (List.mem_append_left _ hc)⟩
  exact List.forall_mem_cons.mpr ⟨hpay, List.forall_mem_singleton.mpr ⟨'p', _, rfl, rfl, hchars⟩⟩

theorem isNumber_sample : IsNumber "1. ".toList :=
  ⟨['1'], ['.'], [' '], rfl, nofun, List.forall_mem_singleton.mpr rfl,
    List.forall_mem_singleton.mpr rfl, rfl⟩

def sampleRows : List Row :=
  [⟨"1. ", ⟨"pay-2", "2) “还” |100| -"⟩⟩, ⟨"", ⟨"pay", "\"a\" 和 'b'。"⟩⟩]

theorem parse_rows_sample : (∀ name ∈ sampleCatalog.names, IsSkillName name) ∧
    (∀ r ∈ sampleRows, r.Valid sampleCatalog) ∧ (∀ r ∈ sampleRows, ¬ EndsQuoted r.intent.task) ∧
    parse sampleCatalog "m" "1. pay-2|2) “还” |100| -\npay|\"a\" 和 'b'。" =
      [⟨"pay-2", "2) “还” |100| -"⟩, ⟨"pay", "\"a\" 和 'b'。"⟩] := by
  have hrows : ∀ r ∈ sampleRows, r.Valid sampleCatalog :=
    List.forall_mem_cons.mpr ⟨⟨.inr isNumber_sample, by decide, by decide, by decide, by decide⟩,
      List.forall_mem_cons.mpr ⟨⟨.inl rfl, by decide, by decide, by decide, by decide⟩, nofun⟩⟩
  have hquoted : ∀ r ∈ sampleRows, ¬ EndsQuoted r.intent.task := by decide +kernel
  exact ⟨isSkillName_sample, hrows, hquoted, (parse_rows isSkillName_sample hrows).2 hquoted⟩

def quotedRows : List Row :=
  [⟨"", ⟨"pay", "查询\"北京\""⟩⟩, ⟨"1. ", ⟨"pay", "\x60"⟩⟩]

/-- A quote that belongs to a task is lost at its end, and a task of quotes gives way to the
message. -/
theorem parse_quoted : (∀ name ∈ sampleCatalog.names, IsSkillName name) ∧
    (∀ r ∈ quotedRows, r.Valid sampleCatalog) ∧
    parse sampleCatalog "m" (Text.joined "\n" (quotedRows.map Row.line)) =
      [⟨"pay", "查询\"北京"⟩, ⟨"pay", "m"⟩] := by
  have hrows : ∀ r ∈ quotedRows, r.Valid sampleCatalog :=
    List.forall_mem_cons.mpr ⟨⟨.inl rfl, by decide, by decide, by decide, by decide⟩,
      List.forall_mem_cons.mpr ⟨⟨.inr isNumber_sample, by decide, by decide, by decide, by decide⟩,
        nofun⟩⟩
  exact ⟨isSkillName_sample, hrows, by decide +kernel⟩

end Intent

end Switchboard
