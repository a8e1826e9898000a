import Switchboard.Skill.Document

/-! Skill documents that are written with their three entries, in any order and among other lines,
between two fences: the entries and the body are read as they were written. -/
namespace Switchboard.Skill.Document

inductive Entry where
  | name
  | description
  | tools
deriving DecidableEq

def Entry.key : Entry → String
  | .name => "name"
  | .description => "description"
  | .tools => "allowed-tools"

def IsGap (s : List Char) : Prop := ∀ c ∈ s, isBlank c = true ∧ c ≠ '\n'

/-- A text on one line that has neither blanks nor quotes at its ends. -/
structure IsValue (s : List Char) : Prop where
  oneLine : '\n' ∉ s
  first : ∀ c ∈ s.head?, isBlank c = false ∧ isQuote c = false
  last : ∀ c ∈ s.getLast?, isBlank c = false ∧ isQuote c = false

def isSeparator (c : Char) : Bool := isBlank c || c = ','

/-- A name in a list of tools: it is not empty and has no blanks, commas or quotes. -/
structure IsToolName (s : List Char) : Prop where
  ne_nil : s ≠ []
  plain : ∀ c ∈ s, isSeparator c = false ∧ isQuote c = false

/-- The names in this order, with separators between them and perhaps around them. -/
inductive Lists : List Char → List String → Prop where
  | nil {gap : List Char} : (∀ c ∈ gap, isSeparator c = true ∧ c ≠ '\n') → Lists gap []
  | cons {gap rest : List Char} {tool : String} {tools : List String} :
    (∀ c ∈ gap, isSeparator c = true ∧ c ≠ '\n') → IsToolName tool.toList →
    (∀ c ∈ rest.head?, isSeparator c = true) → Lists rest tools →
    Lists (gap ++ (tool.toList ++ rest)) (tool :: tools)

inductive Says (doc : Document) : Entry → List Char → Prop where
  | name {name : String} : doc.name = some name → name ≠ "" → IsValue name.toList →
    Says doc .name name.toList
  | description : IsValue doc.description.toList → Says doc .description doc.description.toList
  | tools {value : List Char} : Lists value doc.tools → Says doc .tools value

/-- A line with an entry: its key and its value with a colon between them. -/
inductive Enters (doc : Document) : Entry → List Char → Prop where
  | mk {e : Entry} {before gap gap' value after : List Char} : IsGap before → IsGap gap →
    IsGap gap' → IsGap after → Says doc e value →
    Enters doc e (before ++ (e.key.toList ++ gap) ++ ':' :: (gap' ++ (value ++ after)))

def fence : List Char := ['-', '-', '-']

/-- A line between the fences that has no entry: it has another key or no colon. -/
structure Aside (line : List Char) : Prop where
  oneLine : '\n' ∉ line
  unfenced : ¬ fence <+: line
  key : ∀ key value, line = key ++ ':' :: value → ':' ∉ key →
    ∀ e : Entry, Chars.trim key ≠ e.key.toList

/-- These lines have these entries of the document, in order. -/
inductive Header (doc : Document) : List (List Char) → List Entry → Prop where
  | nil : Header doc [] []
  | entry {line : List Char} {lines : List (List Char)} {e : Entry} {es : List Entry} :
    Enters doc e line → Header doc lines es → Header doc (line :: lines) (e :: es)
  | aside {line : List Char} {lines : List (List Char)} {es : List Entry} :
    Aside line → Header doc lines es → Header doc (line :: lines) es

/-- A document with these lines between its fences, each ended in the same way. -/
def written (mark ending : List Char) (lines : List (List Char)) (body : List Char) : List Char :=
  mark ++ (fence ++ ending ++ lines.flatMap (· ++ ending) ++ fence ++ ending ++ body)

def field? (line : List Char) : Option (String × List Char) :=
  (Chars.cut? [':'] line).map fun p => (.ofList (Chars.trim p.1), Chars.trim p.2)

def addField (doc : Document) (f : String × List Char) : Document :=
  let value := Chars.trimBy isQuote f.2
  if f.1 = "name" then
    { doc with name := if value.isEmpty then none else some (.ofList value) }
  else if f.1 = "description" then { doc with description := .ofList value }
  else if f.1 = "allowed-tools" then { doc with tools := toolNames value }
  else doc

theorem foldl_addLine (lines : List (List Char)) (doc : Document) :
    lines.foldl addLine doc = (lines.filterMap field?).foldl addField doc := by
  rw [List.foldl_filterMap]
  congr
  funext doc line
  rw [addLine, field?]
  cases Chars.cut? [':'] line <;> rfl

/-- A document that takes over an entry of another one. -/
def take (doc source : Document) : Entry → Document
  | .name => { doc with name := source.name }
  | .description => { doc with description := source.description }
  | .tools => { doc with tools := source.tools }

section
variable {doc d : Document} {e : Entry} {es : List Entry} {s gap gap' line key value : List Char}
  {lines : List (List Char)} {tools : List String}

theorem field?_append (hkey : ':' ∉ key) (value : List Char) :
    field? (key ++ ':' :: value) = some (.ofList (Chars.trim key), Chars.trim value) := by
  rw [field?, Chars.cut?_append hkey]
  rfl

theorem field?_of_notMem (h : ':' ∉ line) : field? line = none := by
  have hcut := Chars.cut?_append_of_head h [] []
  rw [List.append_nil] at hcut
  rw [field?, hcut]
  rfl

/-- A carriage return at the end of a line makes no difference. -/
theorem field?_return (line : List Char) : field? (line ++ ['\r']) = field? line := by
  by_cases hcolon : ':' ∈ line
  · obtain ⟨key, value, rfl, hkey⟩ := List.eq_append_cons_of_mem hcolon
    rw [List.append_assoc, List.cons_append, field?_append hkey, field?_append hkey,
      Chars.trim_append rfl]
  · have hcolon' : ':' ∉ line ++ ['\r'] := by simp [hcolon]
    rw [field?_of_notMem hcolon, field?_of_notMem hcolon']

/-- A text without quotes at its ends keeps them. -/
theorem trimBy_isQuote (hfirst : ∀ c ∈ s.head?, isQuote c = false)
    (hlast : ∀ c ∈ s.getLast?, isQuote c = false) : Chars.trimBy isQuote s = s := by
  have hs : Chars.trimBy isQuote ([] ++ (s ++ [])) = s :=
    Chars.trimBy_padded rfl rfl hfirst hlast
  rwa [List.nil_append, List.append_nil] at hs

theorem IsGap.isSeparator (h : IsGap gap) : ∀ c ∈ gap, isSeparator c = true := by
  intro c hc
  rw [Document.isSeparator, (h c hc).1]
  rfl

theorem IsGap.all_isBlank (h : IsGap gap) : gap.all isBlank = true :=
  List.all_eq_true.mpr fun c hc => (h c hc).1

def words (s : List Char) : List (List Char) :=
  (Chars.splitBy isSeparator s).filter (!·.isEmpty)

theorem toolNames_eq (s : List Char) : toolNames s = (words s).map String.ofList := rfl

theorem words_cons {c : Char} (hc : isSeparator c = true) (s : List Char) :
    words (c :: s) = words s := by
  rw [words, Chars.splitBy_cons_of_pos hc]
  rfl

theorem words_append_left (hgap : ∀ c ∈ gap, isSeparator c = true) (s : List Char) :
    words (gap ++ s) = words s := by
  induction gap with
  | nil => rfl
  | cons c gap ih =>
    obtain ⟨hc, hgap⟩ := List.forall_mem_cons.mp hgap
    rw [List.cons_append, words_cons hc, ih hgap]

theorem splitBy_append_gap (hgap : ∀ c ∈ gap, isSeparator c = true) (s : List Char) :
    Chars.splitBy isSeparator (s ++ gap) =
      Chars.splitBy isSeparator s ++ List.replicate gap.length [] := by
  induction s with
  | nil =>
    induction gap with
    | nil => rfl
    | cons c gap ih =>
      obtain ⟨hc, hgap⟩ := List.forall_mem_cons.mp hgap
      have hsplit := ih hgap
      rw [List.nil_append] at hsplit ⊢
      rw [Chars.splitBy_cons_of_pos hc, hsplit]
      rfl
  | cons c s ih =>
    obtain ⟨l, ls, hsplit⟩ := Chars.exists_splitBy isSeparator s
    rw [List.cons_append, Chars.splitBy, ih, Chars.splitBy, hsplit]
    split <;> rfl

theorem words_append_right (hgap : ∀ c ∈ gap, isSeparator c = true) (s : List Char) :
    words (s ++ gap) = words s := by
  rw [words, splitBy_append_gap hgap, List.filter_append, List.filter_replicate_of_neg (by simp),
    List.append_nil]
  rfl

theorem words_trim (s : List Char) : words (Chars.trim s) = words s := by
  have hblank {blanks : List Char} (h : blanks.all isBlank = true) :
      ∀ c ∈ blanks, isSeparator c = true := by
    intro c hc
    rw [isSeparator, List.all_eq_true.mp h c hc]
    rfl
  obtain ⟨before, hbefore, hs⟩ := Chars.exists_trimStart s
  obtain ⟨after, hafter, ht⟩ := Chars.exists_trimEnd (Chars.trimStart s)
  rw [Chars.trim, ← words_append_right (hblank hafter), ← ht,
    ← words_append_left (hblank hbefore) (Chars.trimStart s), ← hs]

theorem words_append {name rest : List Char} (hname : IsToolName name)
    (hrest : ∀ c ∈ rest.head?, isSeparator c = true) :
    words (name ++ rest) = name :: words rest := by
  have hplain : ∀ c ∈ name, isSeparator c = false := fun c hc => (hname.plain c hc).1
  have hsplit : ∃ ls, Chars.splitBy isSeparator rest = [] :: ls := by
    cases rest with
    | nil => exact ⟨[], rfl⟩
    | cons c rest => exact ⟨_, Chars.splitBy_cons_of_pos (hrest c rfl) rest⟩
  obtain ⟨ls, hls⟩ := hsplit
  have hne : (!name.isEmpty) = true := by simp [hname.ne_nil]
  rw [words, words, Chars.splitBy_append hplain hls, hls, List.append_nil, List.filter_cons,
    if_pos hne]
  rfl

theorem words_of_lists (h : Lists s tools) : (words s).map String.ofList = tools := by
  induction h with
  | nil hgap =>
    have hwords := words_append_left (fun c hc => (hgap c hc).1) []
    rw [List.append_nil] at hwords
    rw [hwords]
    rfl
  | cons hgap htool hrest _ ih =>
    rw [words_append_left fun c hc => (hgap c hc).1, words_append htool hrest, List.map_cons, ih,
      String.ofList_toList]

theorem isQuote_of_isSeparator {c : Char} (h : isSeparator c = true) : isQuote c = false := by
  rw [Bool.eq_false_iff]
  intro hquote
  rw [isQuote, Bool.or_eq_true, decide_eq_true_iff, decide_eq_true_iff] at hquote
  rcases hquote with rfl | rfl <;> cases h

theorem Lists.plain (h : Lists s tools) : ∀ c ∈ s, isQuote c = false ∧ c ≠ '\n' := by
  induction h with
  | nil hgap => exact fun c hc => ⟨isQuote_of_isSeparator (hgap c hc).1, (hgap c hc).2⟩
  | cons hgap htool _ _ ih =>
    refine List.forall_mem_append.mpr
      ⟨fun c hc => ?_, List.forall_mem_append.mpr ⟨fun c hc => ?_, ih⟩⟩
    · exact ⟨isQuote_of_isSeparator (hgap c hc).1, (hgap c hc).2⟩
    · refine ⟨(htool.plain c hc).2, ?_⟩
      rintro rfl
      cases (htool.plain _ hc).1

theorem addField_says (h : Says doc e value) (hgap : IsGap gap) (hgap' : IsGap gap')
    (d : Document) :
    addField d (e.key, Chars.trim (gap ++ (value ++ gap'))) = d.take doc e := by
  have hpadded {value : List Char} (h : IsValue value) :
      Chars.trimBy isQuote (Chars.trim (gap ++ (value ++ gap'))) = value := by
    rw [Chars.trim_padded hgap.all_isBlank hgap'.all_isBlank (fun c hc => (h.first c hc).1)
      fun c hc => (h.last c hc).1]
    exact trimBy_isQuote (fun c hc => (h.first c hc).2) fun c hc => (h.last c hc).2
  cases h with
  | @name name hname hne hvalue =>
    have hempty : name.toList.isEmpty = false := by simpa using hne
    dsimp only [addField, Entry.key]
    rw [hpadded hvalue, if_pos rfl, hempty, take, hname, String.ofList_toList]
    rfl
  | description hvalue =>
    dsimp only [addField, Entry.key]
    rw [hpadded hvalue, if_neg (by decide), if_pos rfl, take, String.ofList_toList]
  | tools hlists =>
    have hquotes : ∀ c ∈ Chars.trim (gap ++ (value ++ gap')), isQuote c = false := by
      obtain ⟨before, after, -, -, hs, -⟩ := Chars.exists_trimBy isBlank (gap ++ (value ++ gap'))
      intro c hc
      have hmem : c ∈ gap ++ (value ++ gap') :=
        hs ▸ List.mem_append_right before (List.mem_append_left after hc)
      rcases List.mem_append.mp hmem with hmem | hmem
      · exact isQuote_of_isSeparator (hgap.isSeparator c hmem)
      · rcases List.mem_append.mp hmem with hmem | hmem
        · exact (hlists.plain c hmem).1
        · exact isQuote_of_isSeparator (hgap'.isSeparator c hmem)
    dsimp only [addField, Entry.key]
    rw [if_neg (by decide), if_neg (by decide), if_pos rfl, take,
      trimBy_isQuote (fun c hc => hquotes c (List.mem_of_mem_head? hc))
        (fun c hc => hquotes c (List.mem_of_mem_getLast? hc)),
      toolNames_eq, words_trim, words_append_left hgap.isSeparator,
      words_append_right hgap'.isSeparator, words_of_lists hlists]

theorem colon_notMem_key (e : Entry) : ':' ∉ e.key.toList := by cases e <;> decide

theorem forall_mem_of_all {p : Char → Prop} [DecidablePred p] (h : s.all (p ·) = true) :
    ∀ c ∈ s, p c := fun c hc => of_decide_eq_true (List.all_eq_true.mp h c hc)

theorem forall_mem_of_isAll {p : Char → Prop} [DecidablePred p] {o : Option Char}
    (h : o.all (p ·) = true) : ∀ c ∈ o, p c :=
  fun c hc => of_decide_eq_true ((Option.all_eq_true _ _).mp h c hc)

theorem trim_key (hgap : IsGap gap) (hgap' : IsGap gap') :
    Chars.trim (gap ++ (e.key.toList ++ gap')) = e.key.toList := by
  refine Chars.trim_padded hgap.all_isBlank hgap'.all_isBlank ?_ ?_
  all_goals exact forall_mem_of_isAll (by cases e <;> decide)

theorem IsGap.notMem (h : IsGap gap) {c : Char} (hc : isBlank c = false) : c ∉ gap := fun hmem => by
  simp [(h c hmem).1] at hc

theorem exists_field?_enters (h : Enters doc e line) (d : Document) :
    ∃ f, field? line = some f ∧ addField d f = d.take doc e := by
  obtain ⟨hbefore, hgap, hgap', hafter, hsays⟩ := h
  refine ⟨_, field?_append ?_ _, ?_⟩
  · simp only [List.mem_append, not_or]
    exact ⟨hbefore.notMem rfl, colon_notMem_key e, hgap.notMem rfl⟩
  · rw [trim_key hbefore hgap, String.ofList_toList, addField_says hsays hgap' hafter]

theorem addField_aside (h : Aside line) {f : String × List Char} (hf : field? line = some f)
    (d : Document) : addField d f = d := by
  by_cases hcolon : ':' ∈ line
  · obtain ⟨key, value, rfl, hkey⟩ := List.eq_append_cons_of_mem hcolon
    rw [field?_append hkey] at hf
    obtain rfl := Option.some.inj hf
    have hother (e : Entry) : String.ofList (Chars.trim key) ≠ e.key := fun heq =>
      h.key key value rfl hkey e (by rw [← heq, String.toList_ofList])
    exact (if_neg (hother .name)).trans
      ((if_neg (hother .description)).trans (if_neg (hother .tools)))
  · rw [field?_of_notMem hcolon] at hf
    cases hf

theorem Aside.of_field? (hline : '\n' ∉ line) (hfence : ¬ fence <+: line)
    (hkey : ∀ f, field? line = some f → ∀ e : Entry, f.1 ≠ e.key) : Aside line := by
  refine ⟨hline, hfence, fun key value heq hcolon e htrim => ?_⟩
  refine hkey _ (heq ▸ field?_append hcolon value) e ?_
  rw [htrim, String.ofList_toList]

theorem foldl_addField_header (h : Header doc lines es) (d : Document) :
    (lines.filterMap field?).foldl addField d = es.foldl (fun d e => d.take doc e) d := by
  induction h generalizing d with
  | nil => rfl
  | entry henters _ ih =>
    obtain ⟨f, hf, hadd⟩ := exists_field?_enters henters d
    rw [List.filterMap_cons_some hf, List.foldl_cons, hadd, ih, List.foldl_cons]
  | @aside line lines es haside _ ih =>
    cases hf : field? line with
    | none => rw [List.filterMap_cons_none hf, ih]
    | some f => rw [List.filterMap_cons_some hf, List.foldl_cons, addField_aside haside hf, ih]

theorem take_comm (d doc : Document) (e e' : Entry) :
    (d.take doc e).take doc e' = (d.take doc e').take doc e := by
  cases e <;> cases e' <;> rfl

/-- The entries may come in any order. -/
theorem foldl_take (hes : es.Perm [.name, .description, .tools]) (d doc : Document) :
    es.foldl (fun d e => d.take doc e) d = { doc with body := d.body } :=
  hes.foldl_eq' (fun e _ e' _ d => take_comm d doc e e') d

theorem Says.newline_notMem (h : Says doc e value) : '\n' ∉ value := by
  cases h with
  | name _ _ hvalue => exact hvalue.oneLine
  | description hvalue => exact hvalue.oneLine
  | tools hlists => exact fun hmem => (hlists.plain _ hmem).2 rfl

/-- A line of a header does not end it. -/
structure Within (line : List Char) : Prop where
  oneLine : '\n' ∉ line
  unfenced : ¬ fence <+: line

theorem Enters.within (h : Enters doc e line) : Within line := by
  obtain ⟨hbefore, hgap, hgap', hafter, hsays⟩ := h
  have hnewline {gap : List Char} (h : IsGap gap) : '\n' ∉ gap := fun hmem => (h _ hmem).2 rfl
  have hkey : '\n' ∉ e.key.toList := by cases e <;> decide
  refine ⟨?_, fun hprefix => ?_⟩
  · simp only [List.mem_append, List.mem_cons, not_or]
    exact ⟨⟨hnewline hbefore, hkey, hnewline hgap⟩, by decide, hnewline hgap',
      hsays.newline_notMem, hnewline hafter⟩
  · obtain ⟨rest, hrest⟩ := hprefix
    -- Neither a blank nor a key begins with a dash.
    have hdash : ∀ c ∈ (fence ++ rest).head?, c ≠ '-' := by
      rw [hrest, List.append_assoc]
      refine Chars.forall_head?_append (fun c hc heq => ?_) ?_
      · exact absurd (heq ▸ hc) (hbefore.notMem rfl)
      · cases e <;> simp [Entry.key]
    exact hdash '-' rfl rfl

theorem Header.within (h : Header doc lines es) : ∀ line ∈ lines, Within line := by
  induction h with
  | nil => nofun
  | entry henters _ ih => exact List.forall_mem_cons.mpr ⟨henters.within, ih⟩
  | aside haside _ ih =>
    exact List.forall_mem_cons.mpr ⟨⟨haside.oneLine, haside.unfenced⟩, ih⟩

def IsReturn (ret : List Char) : Prop := ret = [] ∨ ret = ['\r']

theorem Header.within_return (h : Header doc lines es) {ret : List Char} (hret : IsReturn ret) :
    ∀ line ∈ lines.map (· ++ ret), Within line := by
  intro ended hended
  obtain ⟨line, hline, rfl⟩ := List.mem_map.mp hended
  have hwithin := h.within line hline
  rcases hret with rfl | rfl
  · rwa [List.append_nil]
  · refine ⟨by simp [hwithin.oneLine], fun hprefix => ?_⟩
    exact hwithin.unfenced (Chars.prefix_append_cons (by decide) hprefix)

/-- The header ends at the first line that begins with the fence. -/
theorem cut?_fence (hne : lines ≠ []) (h : ∀ line ∈ lines, Within line) (rest : List Char) :
    Chars.cut? ('\n' :: fence) (['\n'].intercalate lines ++ '\n' :: (fence ++ rest)) =
      some (['\n'].intercalate lines, rest) := by
  induction lines with
  | nil => exact absurd rfl hne
  | cons line lines ih =>
    obtain ⟨hline, hlines⟩ := List.forall_mem_cons.mp h
    cases lines with
    | nil =>
      have hafter : Chars.after? ('\n' :: fence) ('\n' :: (fence ++ rest)) = some rest :=
        Chars.after?_eq_some.mpr rfl
      rw [List.intercalate_singleton, Chars.cut?_append_of_head hline.oneLine, Chars.cut?, hafter]
      exact congrArg some (Prod.ext (List.append_nil line) rfl)
    | cons next lines =>
      -- Behind the line feed the next line stands, which does not begin with the fence.
      have hnext : ∃ t, ['\n'].intercalate (next :: lines) ++ '\n' :: (fence ++ rest) =
          next ++ '\n' :: t := by
        cases lines with
        | nil => exact ⟨_, by rw [List.intercalate_singleton]⟩
        | cons _ _ => exact ⟨_, by rw [List.intercalate_cons_cons, List.append_assoc,
            List.append_assoc, List.singleton_append]⟩
      have hafter : Chars.after? ('\n' :: fence)
          ('\n' :: (['\n'].intercalate (next :: lines) ++ '\n' :: (fence ++ rest))) = none := by
        obtain ⟨t, ht⟩ := hnext
        rw [← Option.not_isSome_iff_eq_none, Chars.isSome_after?, ht, List.cons_prefix_cons]
        exact fun hprefix =>
          (List.forall_mem_cons.mp hlines).1.unfenced
            (Chars.prefix_append_cons (by decide) hprefix.2)
      rw [List.intercalate_cons_cons, List.append_assoc, List.append_assoc, List.singleton_append,
        Chars.cut?_append_of_head hline.oneLine, Chars.cut?, hafter,
        ih (List.cons_ne_nil _ _) hlines]
      simp

theorem flatMap_ending (hne : lines ≠ []) (ret rest : List Char) :
    lines.flatMap (· ++ (ret ++ ['\n'])) ++ rest =
      ['\n'].intercalate (lines.map (· ++ ret)) ++ '\n' :: rest := by
  induction lines with
  | nil => exact absurd rfl hne
  | cons line lines ih =>
    cases lines with
    | nil => simp
    | cons next lines =>
      rw [List.flatMap_cons, List.append_assoc, ih (List.cons_ne_nil _ _)]
      simp only [List.map_cons, List.intercalate_cons_cons, List.append_assoc, List.cons_append]

theorem afterFence?_append {mark ret : List Char} (hmark : ∀ c ∈ mark, c = '\uFEFF')
    (hret : IsReturn ret) (rest : List Char) :
    afterFence? (mark ++ (fence ++ (ret ++ '\n' :: rest))) = some rest := by
  have hdrop : (mark ++ (fence ++ (ret ++ '\n' :: rest))).dropWhile (· == '\uFEFF') =
      fence ++ (ret ++ '\n' :: rest) := by
    rw [List.dropWhile_append_of_pos fun c hc => by simp [hmark c hc]]
    rfl
  have hafter : Chars.after? fence (fence ++ (ret ++ '\n' :: rest)) = some (ret ++ '\n' :: rest) :=
    Chars.after?_eq_some.mpr rfl
  rw [afterFence?, hdrop, ← fence, hafter]
  rcases hret with rfl | rfl <;> rfl

/-- The entries of a header are read from its lines, whichever way these end. -/
theorem foldl_addLine_header (h : Header doc lines es) (hes : es.Perm [.name, .description, .tools])
    {ret : List Char} (hret : IsReturn ret) :
    (Chars.lines (['\n'].intercalate (lines.map (· ++ ret)))).foldl addLine {} =
      { doc with body := "" } := by
  have hlines : ∀ line ∈ lines.map (· ++ ret), '\n' ∉ line :=
    fun line hline => (h.within_return hret line hline).oneLine
  have hfields : (lines.map (· ++ ret)).filterMap field? = lines.filterMap field? := by
    rw [List.filterMap_map]
    rcases hret with rfl | rfl
    · simp only [List.append_nil]
      rfl
    · exact congrArg (lines.filterMap ·) (funext field?_return)
  rw [foldl_addLine, Chars.filterMap_lines rfl field?_return hlines, hfields,
    foldl_addField_header h, foldl_take hes]

/-- A document that is written with its three entries, each once and in any order, and with other
lines among them, is read as it was written; line ends in front of its body are left out. -/
theorem parse?_of_written {mark ending : List Char} {body : String}
    (hmark : ∀ c ∈ mark, c = '\uFEFF') (hending : ending = ['\n'] ∨ ending = ['\r', '\n'])
    (hheader : Header doc lines es) (hes : es.Perm [.name, .description, .tools]) :
    parse? (.ofList (written mark ending lines body.toList)) = some
      { doc with body := .ofList (body.toList.dropWhile fun c => c = '\r' || c = '\n') } := by
  obtain ⟨ret, hret, rfl⟩ : ∃ ret, IsReturn ret ∧ ending = ret ++ ['\n'] := by
    rcases hending with rfl | rfl
    · exact ⟨[], .inl rfl, rfl⟩
    · exact ⟨['\r'], .inr rfl, rfl⟩
  have hne : lines ≠ [] := by
    rintro rfl
    cases hheader
    exact absurd hes.length_eq (by decide)
  have htext : written mark (ret ++ ['\n']) lines body.toList =
      mark ++ (fence ++ (ret ++ '\n' :: (['\n'].intercalate (lines.map (· ++ ret)) ++
        '\n' :: (fence ++ (ret ++ '\n' :: body.toList))))) := by
    simp only [written, List.append_assoc, ← flatMap_ending hne, List.cons_append, List.nil_append]
  have hcut := cut?_fence (by simpa using hne) (hheader.within_return hret)
    (ret ++ '\n' :: body.toList)
  have hbody : (ret ++ '\n' :: body.toList).dropWhile (fun c => c = '\r' || c = '\n') =
      body.toList.dropWhile fun c => c = '\r' || c = '\n' := by
    rcases hret with rfl | rfl <;> rfl
  rw [parse?, String.toList_ofList, htext, parseChars?, afterFence?_append hmark hret]
  dsimp only [Option.bind_eq_bind, Option.bind_some]
  rw [← fence, hcut]
  dsimp only [Option.bind_some]
  rw [foldl_addLine_header hheader hes hret, hbody]

/-- The weather skill of a document with line ends of two characters and a mark in front, with a
comment and another key in its header, colons and quotes inside its values, and a body that looks
like a header. -/
theorem parse?_of_written_weather :
    let doc : Document := ⟨some "Weather", "a: \"b\" c", ["getWeather", "city:find"], ""⟩
    let lines := ["# 天气".toList, "allowed-tools: getWeather, ,city:find".toList,
      "version : 2".toList, "description:a: \"b\" c ".toList, "name: Weather".toList]
    let es : List Entry := [.tools, .description, .name]
    Header doc lines es ∧ es.Perm [.name, .description, .tools] ∧
      parse? (.ofList (written ['\uFEFF'] ['\r', '\n'] lines "\r\n---\nname: x\n".toList)) =
        some { doc with body := "---\nname: x\n" } := by
  intro doc lines es
  have hgap : IsGap [] := nofun
  have hspace : IsGap [' '] := forall_mem_of_all (by decide)
  have htools : Lists "getWeather, ,city:find".toList doc.tools := by
    have hlast : Lists ", ,city:find".toList ["city:find"] :=
      @Lists.cons ", ,".toList [] "city:find" _ (forall_mem_of_all (by decide))
        ⟨by decide, forall_mem_of_all (by decide)⟩ nofun (@Lists.nil [] nofun)
    exact @Lists.cons [] ", ,city:find".toList "getWeather" _ nofun
      ⟨by decide, forall_mem_of_all (by decide)⟩ (forall_mem_of_isAll (by decide)) hlast
  have hdescription : Says doc .description "a: \"b\" c".toList :=
    .description ⟨by decide, forall_mem_of_isAll (by decide), forall_mem_of_isAll (by decide)⟩
  have hname : Says doc .name "Weather".toList := .name rfl (by decide)
    ⟨by decide, forall_mem_of_isAll (by decide), forall_mem_of_isAll (by decide)⟩
  have hheading : Aside "# 天气".toList := .of_field? (by decide) (by decide) nofun
  have hversion : Aside "version : 2".toList := by
    refine .of_field? (by decide) (by decide) fun f hf e => ?_
    obtain rfl := Option.some.inj hf
    cases e <;> decide
  have hheader : Header doc lines es := by
    refine .aside hheading <| .entry ?_ <| .aside hversion <| .entry ?_ <| .entry ?_ .nil
    · exact @Enters.mk doc .tools [] [] [' '] _ [] hgap hgap hspace hgap (.tools htools)
    · exact @Enters.mk doc .description [] [] [] _ [' '] hgap hgap hgap hspace hdescription
    · exact @Enters.mk doc .name [] [] [' '] _ [] hgap hgap hspace hgap hname
  have hes : es.Perm [.name, .description, .tools] := by decide
  exact ⟨hheader, hes, parse?_of_written (by simp) (.inr rfl) hheader hes⟩

end

end Switchboard.Skill.Document
