import Switchboard.Proofs.Questions

/-! Plans that are written one step a line, with numbers or bullets, blank lines, headings and the
fences of code blocks: the steps are read as they were written. -/
namespace Switchboard

theorem isBlank_of_isDecimalDigit {c : Char} (h : isDecimalDigit c = true) : isBlank c = false := by
  have hdigits : ∀ z ∈ digitZeros, ∀ i < 10, isBlank (Char.ofNat (z + i)) = false := by
    decide +kernel
  obtain ⟨z, hz, hc⟩ := List.any_eq_true.mp h
  rw [Bool.and_eq_true, decide_eq_true_iff, decide_eq_true_iff] at hc
  have hblank := hdigits z hz (c.toNat - z) (by omega)
  rwa [Nat.add_sub_cancel' hc.1, Char.ofNat_toNat] at hblank

namespace Plan

def fence : List Char := List.replicate 3 '\x60'

def stepWord : List Char := "步骤".toList

/-- Digits and a mark, with blanks between them or without. -/
inductive Ordinal : List Char → Prop where
  | mk {digits gap : List Char} {mark : Char} : digits ≠ [] → digits.all isDecimalDigit = true →
    gap.all isBlank = true → isNumberMark mark = true → Ordinal (digits ++ (gap ++ [mark]))

/-- The number of a step, with or without the word for "step" before it. -/
inductive Number : List Char → Prop where
  | plain {ordinal : List Char} : Ordinal ordinal → Number ordinal
  | worded {blanks ordinal : List Char} : blanks.all isBlank = true → Ordinal ordinal →
    Number (stepWord ++ (blanks ++ ordinal))

/-- What may stand before a step: a number, or a bullet and a blank; and further blanks. -/
inductive Marker : List Char → Prop where
  | number {number blanks : List Char} : Number number → blanks.all isBlank = true →
    Marker (number ++ blanks)
  | bullet {bullet blank : Char} {blanks : List Char} : isBullet bullet = true →
    isBlank blank = true → blanks.all isBlank = true → Marker (bullet :: blank :: blanks)

/-- A line that holds no step: a blank one, a heading or the fence of a code block. -/
inductive Aside : List Char → Prop where
  | blank {line : List Char} : line.all isBlank = true → Aside line
  | heading {before rest : List Char} : before.all isBlank = true → Aside (before ++ '#' :: rest)
  | fenced {before rest : List Char} : before.all isBlank = true →
    Aside (before ++ (fence ++ rest))

/-- A step of a plan: a text that is not empty and has no blanks at its ends. -/
structure IsStep (step : List Char) : Prop where
  ne_nil : step ≠ []
  trimmed : Chars.trim step = step

/-- A step that may be written without a marker: it begins with none, and not like an aside. -/
structure Unmarked (step : List Char) : Prop where
  marker : ∀ marker, Marker marker → ¬ marker <+: step
  heading : step.head? ≠ some '#'
  fenced : ¬ fence <+: step

/-- How a step may be written on a line. -/
inductive Writes : List Char → List Char → Prop where
  | marked {before marker step after : List Char} : before.all isBlank = true → Marker marker →
    IsStep step → after.all isBlank = true → Writes (before ++ (marker ++ step ++ after)) step
  | bare {before step after : List Char} : before.all isBlank = true → IsStep step →
    Unmarked step → after.all isBlank = true → Writes (before ++ (step ++ after)) step

inductive Holds : List String → List String → Prop where
  | nil : Holds [] []
  | aside {line : String} {lines steps : List String} : Aside line.toList → Holds lines steps →
    Holds (line :: lines) steps
  | step {line step : String} {lines steps : List String} : Writes line.toList step.toList →
    Holds lines steps → Holds (line :: lines) (step :: steps)

variable {s rest step line number : List Char} {c : Char}

theorem isBlank_of_isNumberMark (h : isNumberMark c = true) : isBlank c = false := by
  have hmark : c = '.' ∨ c = '、' ∨ c = ')' ∨ c = ':' ∨ c = '：' ∨ c = '）' := by
    simpa [isNumberMark, or_assoc] using h
  rcases hmark with rfl | rfl | rfl | rfl | rfl | rfl <;> rfl

theorem isDecimalDigit_of_isNumberMark (h : isNumberMark c = true) : isDecimalDigit c = false := by
  have hmark : c = '.' ∨ c = '、' ∨ c = ')' ∨ c = ':' ∨ c = '：' ∨ c = '）' := by
    simpa [isNumberMark, or_assoc] using h
  rcases hmark with rfl | rfl | rfl | rfl | rfl | rfl <;> decide +kernel

theorem isDecimalDigit_of_isBlank (h : isBlank c = true) : isDecimalDigit c = false :=
  Bool.eq_false_iff.mpr fun hdigit => by simp [isBlank_of_isDecimalDigit hdigit] at h

theorem Ordinal.head (h : Ordinal number) :
    ∃ c rest, number = c :: rest ∧ isDecimalDigit c = true := by
  obtain ⟨hne, hdigits, -, -⟩ := h
  obtain ⟨c, digits, rfl⟩ := List.exists_cons_of_ne_nil hne
  exact ⟨c, _, rfl, List.all_eq_true.mp hdigits c List.mem_cons_self⟩

def afterOrdinal? (s : List Char) : Option (List Char) :=
  if (s.head?.map isDecimalDigit).getD false then
    match Chars.trimStart (s.dropWhile isDecimalDigit) with
    | c :: r => if isNumberMark c then some r else none
    | [] => none
  else none

theorem afterOrdinal?_append (h : Ordinal number) (rest : List Char) :
    afterOrdinal? (number ++ rest) = some rest := by
  obtain ⟨c, digits', hnumber, hc⟩ := h.head
  have hhead : ((number ++ rest).head?.map isDecimalDigit).getD false = true := by
    rw [hnumber]
    exact hc
  rw [afterOrdinal?, if_pos hhead]
  obtain @⟨digits, gap, mark, hne, hdigits, hgap, hmark⟩ := h
  have hdrop : (gap ++ mark :: rest).dropWhile isDecimalDigit = gap ++ mark :: rest := by
    cases gap with
    | nil => exact List.dropWhile_cons_of_neg (by simp [isDecimalDigit_of_isNumberMark hmark])
    | cons b gap =>
      have hb : isBlank b = true := List.all_eq_true.mp hgap b List.mem_cons_self
      exact List.dropWhile_cons_of_neg (by simp [isDecimalDigit_of_isBlank hb])
  rw [List.append_assoc, List.append_assoc, List.singleton_append,
    List.dropWhile_append_of_pos (List.all_eq_true.mp hdigits), hdrop,
    Chars.trimStart_append hgap, Chars.trimStart_cons (isBlank_of_isNumberMark hmark)]
  exact if_pos hmark

theorem exists_ordinal (h : afterOrdinal? s = some rest) :
    ∃ ordinal, Ordinal ordinal ∧ s = ordinal ++ rest := by
  unfold afterOrdinal? at h
  split at h
  next hhead =>
    split at h
    next mark r htrim =>
      split at h
      next hmark =>
        obtain rfl := Option.some.inj h
        obtain ⟨gap, hgap, hrest⟩ := Chars.exists_trimStart (s.dropWhile isDecimalDigit)
        rw [htrim] at hrest
        refine ⟨s.takeWhile isDecimalDigit ++ (gap ++ [mark]),
          .mk ?_ List.all_takeWhile hgap hmark, ?_⟩
        · cases s with
          | nil => cases hhead
          | cons c s =>
            have hc : isDecimalDigit c = true := hhead
            rw [List.takeWhile_cons_of_pos hc]
            exact List.cons_ne_nil _ _
        · rw [List.append_assoc, List.append_assoc, List.singleton_append, ← hrest,
            List.takeWhile_append_dropWhile]
      next => cases h
    next => cases h
  next => cases h

theorem afterNumber?_eq (s : List Char) : afterNumber? s =
    afterOrdinal? (match Chars.after? stepWord s with
      | some r => Chars.trimStart r
      | none => s) := rfl

/-- A number is passed over just as it is written. -/
theorem afterNumber?_eq_some :
    afterNumber? s = some rest ↔ ∃ number, Number number ∧ s = number ++ rest := by
  rw [afterNumber?_eq]
  constructor
  · intro h
    split at h
    next r hr =>
      obtain ⟨blanks, hblanks, hsplit⟩ := Chars.exists_trimStart r
      obtain ⟨ordinal, hordinal, hrest⟩ := exists_ordinal h
      refine ⟨stepWord ++ (blanks ++ ordinal), .worded hblanks hordinal, ?_⟩
      rw [Chars.after?_eq_some.mp hr, hsplit, hrest, List.append_assoc, List.append_assoc]
    next =>
      obtain ⟨ordinal, hordinal, hrest⟩ := exists_ordinal h
      exact ⟨ordinal, .plain hordinal, hrest⟩
  · rintro ⟨number, hnumber, rfl⟩
    cases hnumber with
    | plain hordinal =>
      obtain ⟨c, after, rfl, hc⟩ := hordinal.head
      have hword : Chars.after? stepWord (c :: after ++ rest) = none := by
        refine if_neg ?_
        rintro rfl
        revert hc
        decide +kernel
      rw [hword]
      exact afterOrdinal?_append hordinal rest
    | @worded blanks ordinal hblanks hordinal =>
      obtain ⟨c, after, hcons, hc⟩ := hordinal.head
      have hword : Chars.after? stepWord (stepWord ++ (blanks ++ ordinal) ++ rest) =
          some (blanks ++ (ordinal ++ rest)) :=
        Chars.after?_eq_some.mpr (by rw [List.append_assoc, List.append_assoc])
      have hstart : Chars.trimStart (ordinal ++ rest) = ordinal ++ rest := by
        rw [hcons]
        exact Chars.trimStart_cons (isBlank_of_isDecimalDigit hc) _
      rw [hword]
      dsimp only
      rw [Chars.trimStart_append hblanks, hstart]
      exact afterOrdinal?_append hordinal rest

theorem afterBullet?_eq_some : afterBullet? s = some rest ↔
    ∃ bullet blank, isBullet bullet = true ∧ isBlank blank = true ∧
      s = bullet :: blank :: rest := by
  constructor
  · intro h
    unfold afterBullet? at h
    split at h
    next bullet blank r =>
      split at h
      next hboth =>
        rw [Bool.and_eq_true] at hboth
        cases h
        exact ⟨bullet, blank, hboth.1, hboth.2, rfl⟩
      next => cases h
    next => cases h
  · rintro ⟨bullet, blank, hbullet, hblank, rfl⟩
    exact if_pos (by rw [hbullet, hblank]; rfl)

theorem Number.head (h : Number number) :
    ∃ c rest, number = c :: rest ∧ (isDecimalDigit c = true ∨ c = '步') := by
  cases h with
  | plain hordinal =>
    obtain ⟨c, after, rfl, hc⟩ := hordinal.head
    exact ⟨c, after, rfl, .inl hc⟩
  | worded => exact ⟨_, _, rfl, .inr rfl⟩

theorem isBullet_cases (h : isBullet c = true) : c = '-' ∨ c = '*' ∨ c = '•' := by
  simpa [isBullet, or_assoc] using h

/-- A marker does not begin like a line that holds no step. -/
theorem Marker.head {marker : List Char} (h : Marker marker) :
    ∃ c rest, marker = c :: rest ∧ isBlank c = false ∧ c ≠ '#' ∧ c ≠ '\x60' := by
  cases h with
  | number hnumber =>
    obtain ⟨c, rest, rfl, hdigit | rfl⟩ := hnumber.head
    · refine ⟨c, _, rfl, isBlank_of_isDecimalDigit hdigit, ?_, ?_⟩ <;>
        · rintro rfl
          revert hdigit
          decide +kernel
    · exact ⟨_, _, rfl, by decide⟩
  | bullet hbullet =>
    refine ⟨_, _, rfl, ?_⟩
    rcases isBullet_cases hbullet with rfl | rfl | rfl <;> decide

theorem isComment_iff : isComment s = true ↔ s.head? = some '#' ∨ fence <+: s := by
  rw [isComment, Bool.or_eq_true, decide_eq_true_iff]
  exact or_congr_right Chars.isSome_after?

theorem IsStep.isBlank_first (h : IsStep step) : ∀ c ∈ step.head?, isBlank c = false :=
  fun _ hc => Chars.isBlank_of_head?_trim (h.trimmed.symm ▸ hc)

theorem IsStep.isBlank_last (h : IsStep step) : ∀ c ∈ step.getLast?, isBlank c = false :=
  fun _ hc => Chars.isBlank_of_getLast?_trim (h.trimmed.symm ▸ hc)

theorem IsStep.trim_append {blanks : List Char} (h : IsStep step)
    (hblanks : blanks.all isBlank = true) : Chars.trim (blanks ++ step) = step := by
  rw [Chars.trim, Chars.trimStart_append hblanks, ← Chars.trim, h.trimmed]

/-- A marker is taken away whole, and nothing of the step with it. -/
theorem withoutMarker_append {marker : List Char} (hmarker : Marker marker) (hstep : IsStep step) :
    withoutMarker (marker ++ step) = step := by
  unfold withoutMarker
  cases hmarker with
  | @number number blanks hnumber hblanks =>
    have hafter : afterNumber? (number ++ blanks ++ step) = some (blanks ++ step) :=
      afterNumber?_eq_some.mpr ⟨number, hnumber, List.append_assoc ..⟩
    rw [hafter]
    exact hstep.trim_append hblanks
  | @bullet bullet blank blanks hbullet hblank hblanks =>
    have hnone : afterNumber? (bullet :: blank :: blanks ++ step) = none := by
      refine Option.eq_none_iff_forall_ne_some.mpr fun rest hsome => ?_
      obtain ⟨number, hnumber, hsplit⟩ := afterNumber?_eq_some.mp hsome
      obtain ⟨c, after, hcons, hc⟩ := hnumber.head
      obtain ⟨rfl, -⟩ := List.cons.inj (hsplit.trans (congrArg (· ++ rest) hcons))
      revert hc
      rcases isBullet_cases hbullet with rfl | rfl | rfl <;> decide +kernel
    have hafter : afterBullet? (bullet :: blank :: blanks ++ step) = some (blanks ++ step) :=
      afterBullet?_eq_some.mpr ⟨bullet, blank, hbullet, hblank, rfl⟩
    rw [hnone, hafter]
    exact hstep.trim_append hblanks

theorem marker_notPrefix_iff : (∀ marker, Marker marker → ¬ marker <+: s) ↔
    afterNumber? s = none ∧ afterBullet? s = none := by
  constructor
  · refine fun h => ⟨Option.eq_none_iff_forall_ne_some.mpr fun rest hsome => ?_,
      Option.eq_none_iff_forall_ne_some.mpr fun rest hsome => ?_⟩
    · obtain ⟨number, hnumber, rfl⟩ := afterNumber?_eq_some.mp hsome
      exact h (number ++ []) (.number hnumber rfl) (by simp)
    · obtain ⟨bullet, blank, hbullet, hblank, rfl⟩ := afterBullet?_eq_some.mp hsome
      exact h [bullet, blank] (.bullet hbullet hblank rfl) (List.prefix_append _ rest)
  · rintro ⟨hnumber, hbullet⟩ marker hmarker ⟨rest, rfl⟩
    cases hmarker with
    | @number number blanks h _ =>
      have hsome : afterNumber? (number ++ blanks ++ rest) = some (blanks ++ rest) :=
        afterNumber?_eq_some.mpr ⟨number, h, List.append_assoc ..⟩
      cases hnumber.symm.trans hsome
    | @bullet bullet blank blanks h hblank _ =>
      have hsome : afterBullet? (bullet :: blank :: blanks ++ rest) = some (blanks ++ rest) :=
        afterBullet?_eq_some.mpr ⟨bullet, blank, h, hblank, rfl⟩
      cases hbullet.symm.trans hsome

/-- A step that begins with no marker loses nothing. -/
theorem withoutMarker_of_unmarked (hstep : IsStep step) (h : Unmarked step) :
    withoutMarker step = step := by
  obtain ⟨hnumber, hbullet⟩ := marker_notPrefix_iff.mp h.marker
  rw [withoutMarker, hnumber, hbullet]
  exact hstep.trimmed

theorem stepOfLine?_of_trim {l : List Char} (htrim : Chars.trim line = l)
    (hcomment : isComment l = false)
    (hstep : withoutMarker l = step) (hne : step ≠ []) : stepOfLine? line = some step := by
  have hl : l ≠ [] := by
    rintro rfl
    exact hne hstep.symm
  subst htrim
  simp [stepOfLine?, hcomment, hstep, hne, hl]

theorem stepOfLine?_of_writes (h : Writes line step) : stepOfLine? line = some step := by
  cases h with
  | @marked before marker step after hbefore hmarker hstep hafter =>
    obtain ⟨c, rest, rfl, hblank, hheading, hfence⟩ := hmarker.head
    have htrim : Chars.trim (before ++ (c :: rest ++ step ++ after)) = c :: rest ++ step := by
      refine Chars.trim_padded hbefore hafter (fun d hd => ?_) fun d hd => hstep.isBlank_last d ?_
      · exact Option.some.inj hd ▸ hblank
      · have hlast := List.getLast?_eq_some_getLast hstep.ne_nil
        rwa [List.getLast?_append, hlast, Option.some_or, ← hlast] at hd
    have hcomment : isComment (c :: rest ++ step) = false := by
      rw [Bool.eq_false_iff, Ne, isComment_iff, not_or]
      refine ⟨fun hc => hheading (Option.some.inj hc), fun hprefix => hfence ?_⟩
      exact (List.cons_prefix_cons.mp hprefix).1.symm
    exact stepOfLine?_of_trim htrim hcomment (withoutMarker_append hmarker hstep) hstep.ne_nil
  | bare hbefore hstep hunmarked hafter =>
    have hcomment : isComment step = false := by
      rw [Bool.eq_false_iff, Ne, isComment_iff, not_or]
      exact ⟨hunmarked.heading, hunmarked.fenced⟩
    exact stepOfLine?_of_trim
      (Chars.trim_padded hbefore hafter hstep.isBlank_first hstep.isBlank_last) hcomment
      (withoutMarker_of_unmarked hstep hunmarked) hstep.ne_nil

theorem stepOfLine?_of_aside (h : Aside line) : stepOfLine? line = none := by
  have hcomment (htrim : isComment (Chars.trim line) = true) : stepOfLine? line = none := by
    rw [stepOfLine?]
    exact if_pos (by rw [htrim, Bool.or_true])
  cases h with
  | blank hblank => exact if_pos (by rw [Chars.trim_eq_nil.mpr hblank]; rfl)
  | @heading before rest hbefore =>
    refine hcomment (isComment_iff.mpr (.inl ?_))
    have hend := Chars.trimEnd_append_of_last (s := ['#'])
      (fun c hc => Option.some.inj hc ▸ rfl) rest
    rw [Chars.trim, Chars.trimStart_append hbefore, Chars.trimStart_cons (by decide)]
    exact congrArg List.head? hend
  | @fenced before rest hbefore =>
    refine hcomment (isComment_iff.mpr (.inr ?_))
    have hend := Chars.trimEnd_append_of_last (s := fence)
      (fun c hc => Option.some.inj hc ▸ rfl) rest
    have hstart : Chars.trimStart (fence ++ rest) = fence ++ rest :=
      Chars.trimStart_cons (by decide) _
    rw [Chars.trim, Chars.trimStart_append hbefore, hstart, hend]
    exact List.prefix_append fence _

theorem stepOfLine?_append_return (line : List Char) :
    stepOfLine? (line ++ ['\r']) = stepOfLine? line := by
  have htrim : Chars.trim (line ++ ['\r']) = Chars.trim line := Chars.trim_append rfl line
  rw [stepOfLine?, htrim, stepOfLine?]

/-- From the lines of a plan its steps are read as they are written. -/
theorem listed_of_holds {lines steps : List String} (h : Holds lines steps)
    (hlines : ∀ line ∈ lines, '\n' ∉ line.toList) : listed (Text.joined "\n" lines) = steps := by
  have hsteps : (lines.map String.toList).filterMap stepOfLine? = steps.map String.toList := by
    clear hlines
    induction h with
    | nil => rfl
    | aside haside _ ih =>
      rw [List.map_cons, List.filterMap_cons_none (stepOfLine?_of_aside haside), ih]
    | step hwrites _ ih =>
      rw [List.map_cons, List.filterMap_cons_some (stepOfLine?_of_writes hwrites), ih,
        List.map_cons]
  have hfeeds : ∀ line ∈ lines.map String.toList, '\n' ∉ line := by
    rintro _ hl
    obtain ⟨line, hline, rfl⟩ := List.mem_map.mp hl
    exact hlines line hline
  have hread := Chars.filterMap_lines (f := stepOfLine?) rfl stepOfLine?_append_return hfeeds
  rw [listed, stepLines, Text.toList_joined]
  change (List.filterMap stepOfLine? (Chars.lines (['\n'].intercalate _))).map String.ofList = steps
  rw [hread, hsteps, List.map_map]
  simp [Function.comp_def]

/-- A plan that is written on lines is read as its steps, unless some step asks the user: then the
first such step is the plan. -/
theorem parse_of_holds {lines steps : List String} (h : Holds lines steps)
    (hlines : ∀ line ∈ lines, '\n' ∉ line.toList) :
    parse (Text.joined "\n" lines) =
      (steps.find? (decide <| StartsAsk ·)).elim steps fun question => [question] := by
  have hlisted := listed_of_holds h hlines
  cases hfound : steps.find? (decide <| StartsAsk ·) with
  | some question =>
    obtain ⟨hquestion, before, after, rfl, hbefore⟩ := List.find?_eq_some_iff_append.mp hfound
    exact parse_of_asks hlisted (fun s hs => by simpa using hbefore s hs)
      (of_decide_eq_true hquestion)
  | none =>
    have hplain : steps.find? asksUser = none := by
      refine List.find?_eq_none.mpr fun step hstep hask => ?_
      exact List.find?_eq_none.mp hfound step hstep
        (decide_eq_true ((asksUser_iff (hlisted.symm ▸ hstep)).mp hask))
    change keepQuestion (listed _) = steps
    rw [hlisted, keepQuestion, hplain]

/-- A plan with all kinds of lines: a heading, steps behind a number and behind a bullet, of which
the first begins with a second number, a code block and a step without a marker. -/
def mixedPlan : List String :=
  ["# 计划", "  步骤 1： 2. 查订单", "", "- 追问用户：订单号\r", "\x60\x60\x60", "回复 "]

theorem parse_of_holds_mixed : Holds mixedPlan ["2. 查订单", "追问用户：订单号", "回复"] ∧
    (∀ line ∈ mixedPlan, '\n' ∉ line.toList) ∧
    parse (Text.joined "\n" mixedPlan) =
      (["2. 查订单", "追问用户：订单号", "回复"].find? (decide <| StartsAsk ·)).elim
        ["2. 查订单", "追问用户：订单号", "回复"] (fun question => [question]) ∧
    parse (Text.joined "\n" mixedPlan) = ["追问用户：订单号"] := by
  have hnone : ([] : List Char).all isBlank = true := rfl
  have hspace : [' '].all isBlank = true := rfl
  have hordinal : Ordinal "1：".toList := @Ordinal.mk ['1'] [] '：' nofun (by decide +kernel) rfl rfl
  have hnumber : Marker "步骤 1： ".toList := .number (.worded hspace hordinal) hspace
  have hbullet : Marker "- ".toList := .bullet rfl rfl hnone
  have hbare : Unmarked "回复".toList :=
    ⟨marker_notPrefix_iff.mpr (by decide +kernel), by decide, by decide⟩
  have hfirst : IsStep "2. 查订单".toList := ⟨by decide, by decide⟩
  have hquestion : IsStep "追问用户：订单号".toList := ⟨by decide, by decide⟩
  have hlast : IsStep "回复".toList := ⟨by decide, by decide⟩
  have hholds : Holds mixedPlan ["2. 查订单", "追问用户：订单号", "回复"] :=
    .aside (.heading hnone) <|
    .step (.marked (rfl : "  ".toList.all isBlank = true) hnumber hfirst hnone) <|
    .aside (.blank rfl) <|
    .step (.marked hnone hbullet hquestion (rfl : ['\r'].all isBlank = true)) <|
    .aside (@Aside.fenced [] [] hnone) <|
    .step (.bare hnone hlast hbare hspace) .nil
  have hlines : ∀ line ∈ mixedPlan, '\n' ∉ line.toList := by decide
  have hparse := parse_of_holds hholds hlines
  exact ⟨hholds, hlines, hparse, hparse.trans (by decide +kernel)⟩

end Plan
end Switchboard
