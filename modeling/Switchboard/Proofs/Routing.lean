import Mathlib.Data.List.Forall2
import Mathlib.Data.List.TakeWhile
import Switchboard.Proofs.CatalogNames
import Switchboard.Proofs.SpokenTurns
import Switchboard.Proofs.WrittenIntents
import Switchboard.Route.Router

/-! Which intents a message is routed to, whatever the model replies. -/
namespace Switchboard

namespace Chars

def StrippedStart (p : Char → Bool) (s rest : List Char) : Prop :=
  ∃ before, before.all p = true ∧ s = before ++ rest ∧ ∀ c ∈ rest.head?, p c = false

def Stripped (p : Char → Bool) (s rest : List Char) : Prop :=
  ∃ before after, before.all p = true ∧ after.all p = true ∧ s = before ++ (rest ++ after) ∧
    (∀ c ∈ rest.head?, p c = false) ∧ ∀ c ∈ rest.getLast?, p c = false

variable {p : Char → Bool} {s rest : List Char}

theorem strippedStart_iff : StrippedStart p s rest ↔ s.dropWhile p = rest := by
  constructor
  · rintro ⟨before, hbefore, rfl, hrest⟩
    rw [List.dropWhile_append_of_pos (List.all_eq_true.mp hbefore), dropWhile_eq_self hrest]
  · rintro rfl
    exact ⟨s.takeWhile p, List.all_takeWhile, List.takeWhile_append_dropWhile.symm,
      fun c hc => not_of_head?_dropWhile hc⟩

theorem stripped_iff : Stripped p s rest ↔ trimBy p s = rest := by
  constructor
  · rintro ⟨before, after, hbefore, hafter, rfl, hfirst, hlast⟩
    exact trimBy_padded hbefore hafter hfirst hlast
  · rintro rfl
    exact exists_trimBy p s

end Chars

namespace Intent
open Chars (Stripped StrippedStart)

/-- What a line holds without blanks, a number, list marks and quotes around it. -/
def Cleaned (line core : List Char) : Prop :=
  ∃ numbered marked plain quoted inner, Stripped isBlank line numbered ∧
    StrippedStart Char.isDigit numbered marked ∧ StrippedStart isListMark marked plain ∧
    Stripped isBlank plain quoted ∧ Stripped isQuoteMark quoted inner ∧ Stripped isBlank inner core

/-- What stands before the first bar and behind it; without a bar nothing stands behind it. -/
def Parted (core word rest : List Char) : Prop :=
  (∀ c ∈ word, isBar c = false) ∧
    (core = word ∧ rest = [] ∨ ∃ bar, isBar bar = true ∧ core = word ++ bar :: rest)

/-- The intent that is read from a line: its skill is named before the bar, where more than blanks
must stand, and its task stands behind it. The message stands for a blank task. -/
def Reads (names : List String) (message : String) (line : List Char) (i : Intent) : Prop :=
  ∃ core word rest, Cleaned line core ∧ Parted core word rest ∧ word.all isBlank = false ∧
    Catalog.Names names (.ofList word) i.skill ∧
    i.task = if rest.all isBlank then message else .ofList (Chars.trim rest)

variable {line core word rest : List Char} {message : String} {skills : List Skill}
  {fallback : String} {i : Intent}

theorem cleaned_iff : Cleaned line core ↔ cleanLine line = core := by
  have hdigit : (fun c => '0' ≤ c && c ≤ '9') = Char.isDigit := funext isDigit_eq
  have htrim (s : List Char) : Chars.trimBy isBlank s = Chars.trim s := rfl
  simp only [Cleaned, Chars.stripped_iff, Chars.strippedStart_iff, cleanLine, hdigit, htrim]
  constructor
  · rintro ⟨_, _, _, _, _, rfl, rfl, rfl, rfl, rfl, rfl⟩
    rfl
  · rintro rfl
    exact ⟨_, _, _, _, _, rfl, rfl, rfl, rfl, rfl, rfl⟩

theorem Parted.splitBar (h : Parted core word rest) : splitBar core = (word, Chars.trim rest) := by
  obtain ⟨hword, ⟨rfl, rfl⟩ | ⟨bar, hbar, rfl⟩⟩ := h
  · have hpos : ∀ c ∈ core, (!isBar c) = true := fun c hc => by rw [hword c hc]; rfl
    rw [Intent.splitBar, List.takeWhile_eq_self_iff.mpr hpos, List.dropWhile_eq_nil_iff.mpr hpos]
    rfl
  · exact splitBar_append hword hbar

theorem exists_parted (core : List Char) : ∃ word rest, Parted core word rest := by
  induction core with
  | nil => exact ⟨[], [], nofun, .inl ⟨rfl, rfl⟩⟩
  | cons c core ih =>
    cases hc : isBar c with
    | true => exact ⟨[], core, nofun, .inr ⟨c, hc, rfl⟩⟩
    | false =>
      obtain ⟨word, rest, hword, h⟩ := ih
      refine ⟨c :: word, rest, List.forall_mem_cons.mpr ⟨hc, hword⟩, ?_⟩
      rcases h with ⟨rfl, rfl⟩ | ⟨bar, hbar, rfl⟩
      · exact .inl ⟨rfl, rfl⟩
      · exact .inr ⟨bar, hbar, rfl⟩

theorem isEmpty_trim (rest : List Char) : (Chars.trim rest).isEmpty = rest.all isBlank := by
  rw [Bool.eq_iff_iff, List.isEmpty_iff, Chars.trim_eq_nil]

theorem reads_iff {names : List String} (h : Parted (cleanLine line) word rest) :
    Reads names message line i ↔ word.all isBlank = false ∧
      Catalog.Names names (.ofList word) i.skill ∧
      i.task = if (Chars.trim rest).isEmpty then message else .ofList (Chars.trim rest) := by
  constructor
  · rintro ⟨core, word', rest', hclean, hparted, hblank, hnames, htask⟩
    obtain rfl := cleaned_iff.mp hclean
    obtain ⟨rfl, hrest⟩ := Prod.mk.inj (hparted.splitBar.symm.trans h.splitBar)
    rw [← isEmpty_trim, hrest] at htask
    exact ⟨hblank, hnames, htask⟩
  · rintro ⟨hblank, hnames, htask⟩
    rw [isEmpty_trim] at htask
    exact ⟨_, word, rest, cleaned_iff.mpr rfl, h, hblank, hnames, htask⟩

/-- What is read from a line is the intent that stands on it. -/
theorem ofLine?_eq_some_iff : ofLine? (.ofSkills skills fallback) message line = some i ↔
    Reads (skills.map (·.name)) message line i := by
  obtain ⟨word, rest, hparted⟩ := exists_parted (cleanLine line)
  have hnames : (∃ s, (Catalog.ofSkills skills fallback).match? (.ofList word) = some s ∧
      s.name = i.skill) ↔
      word.all isBlank = false ∧ Catalog.Names (skills.map (·.name)) (.ofList word) i.skill := by
    rw [Catalog.match?_ofSkills, Text.isBlankText, String.toList_ofList]
  rw [reads_iff hparted, ← and_assoc, ← hnames, ofLine?]
  dsimp only
  split
  next hempty =>
    -- Of an empty line the part before the bar is empty, and means nothing.
    have hsplit := hparted.splitBar
    rw [List.isEmpty_iff.mp hempty] at hsplit
    obtain rfl : [] = word := (Prod.mk.inj hsplit).1
    refine iff_of_false (Option.some_ne_none i).symm ?_
    rintro ⟨⟨s, hs, -⟩, -⟩
    cases (Catalog.match?_eq_some_iff.mp hs).1
  next =>
    rw [hparted.splitBar]
    dsimp only
    rw [Option.map_eq_some_iff]
    constructor
    · rintro ⟨s, hs, rfl⟩
      exact ⟨⟨s, hs, rfl⟩, rfl⟩
    · rintro ⟨⟨s, hs, hname⟩, htask⟩
      exact ⟨s, hs, by rw [hname, ← htask]⟩

end Intent

namespace Route
open Intent (Reads)

open Classical in
/-- What a message is routed to by a reply of the model: if the model fails, or no line of its text
is read as an intent, the message itself for the fallback skill; else in order one intent for each
line that is read as one. -/
inductive Routed (names : List String) (fallback message : String) :
    Except ModelError String → List Intent → Prop where
  | failed (err : ModelError) : Routed names fallback message (.error err) [⟨fallback, message⟩]
  | unread (output : String) :
    (∀ line ∈ Chars.lines output.toList, ¬ ∃ i, Reads names message line i) →
    Routed names fallback message (.ok output) [⟨fallback, message⟩]
  | read (output : String) (intents : List Intent) :
    (∃ line ∈ Chars.lines output.toList, ∃ i, Reads names message line i) →
    List.Forall₂ (Reads names message)
      ((Chars.lines output.toList).filter fun line => ∃ i, Reads names message line i) intents →
    Routed names fallback message (.ok output) intents

variable {α β : Type} {R : α → β → Prop} {f : α → Option β}

open Classical in
theorem forall₂_filter (h : ∀ a b, f a = some b ↔ R a b) (l : List α) :
    List.Forall₂ R (l.filter fun a => ∃ b, R a b) (l.filterMap f) := by
  induction l with
  | nil => exact .nil
  | cons a l ih =>
    cases ha : f a with
    | none =>
      have hnone : ¬ ∃ b, R a b := fun ⟨b, hb⟩ => nomatch ha.symm.trans ((h a b).mpr hb)
      rwa [List.filter_cons_of_neg (by simpa using hnone), List.filterMap_cons_none ha]
    | some b =>
      have hsome : ∃ b, R a b := ⟨b, (h a b).mp ha⟩
      rw [List.filter_cons_of_pos (by simpa using hsome), List.filterMap_cons_some ha]
      exact .cons ((h a b).mp ha) ih

variable {skills : List Skill} {fallback message : String}

theorem mem_parse {output : String} {i : Intent} :
    i ∈ Intent.parse (.ofSkills skills fallback) message output ↔
      ∃ line ∈ Chars.lines output.toList, Reads (skills.map (·.name)) message line i := by
  simp only [Intent.parse, List.mem_filterMap, Intent.ofLine?_eq_some_iff]

theorem routed_iff {reply : Except ModelError String} {intents : List Intent} :
    Routed (skills.map (·.name)) fallback message reply intents ↔
      intents = intentsOf (.ofSkills skills fallback) message reply := by
  cases reply with
  | error err =>
    constructor
    · rintro ⟨⟩
      rfl
    · rintro rfl
      exact .failed err
  | ok output =>
    have hreads (line : List Char) (i : Intent) :
        Intent.ofLine? (.ofSkills skills fallback) message line = some i ↔
          Reads (skills.map (·.name)) message line i := Intent.ofLine?_eq_some_iff
    have hunique : Relator.RightUnique (Reads (skills.map (·.name)) message) :=
      fun line i j hi hj => Option.some.inj (((hreads line i).mpr hi).symm.trans ((hreads line j).mpr hj))
    have hparse := forall₂_filter hreads (Chars.lines output.toList)
    rw [← Intent.parse] at hparse
    cases hread : Intent.parse (.ofSkills skills fallback) message output with
    | nil =>
      have hnone (line : List Char) (hline : line ∈ Chars.lines output.toList) :
          ¬ ∃ i, Reads (skills.map (·.name)) message line i := by
        rintro ⟨i, hi⟩
        have hmem : i ∈ Intent.parse (.ofSkills skills fallback) message output :=
          mem_parse.mpr ⟨line, hline, hi⟩
        rw [hread] at hmem
        cases hmem
      simp only [intentsOf, hread]
      constructor
      · rintro (_ | _ | ⟨_, _, ⟨line, hline, hi⟩, _⟩)
        · rfl
        · exact absurd hi (hnone line hline)
      · intro hintents
        exact hintents ▸ .unread output hnone
    | cons i is =>
      rw [hread] at hparse
      obtain ⟨line, hline, hi⟩ := mem_parse.mp (hread ▸ List.mem_cons_self)
      simp only [intentsOf, hread]
      constructor
      · rintro (_ | ⟨_, hnone⟩ | ⟨_, _, _, hall⟩)
        · exact absurd ⟨i, hi⟩ (hnone line hline)
        · exact List.right_unique_forall₂' hunique hall hparse
      · rintro rfl
        exact .read output _ ⟨line, hline, i, hi⟩ hparse

/-- No reply routes a message to a skill that is neither in the catalog nor its fallback. -/
theorem Routed.mem_names {names : List String} {reply : Except ModelError String}
    {intents : List Intent} (h : Routed names fallback message reply intents) {i : Intent}
    (hi : i ∈ intents) : i.skill ∈ names ∨ i.skill = fallback := by
  cases h with
  | failed | unread =>
    rw [List.mem_singleton.mp hi]
    exact .inr rfl
  | read _ _ _ hall =>
    obtain ⟨⟨n, hn⟩, rfl⟩ := List.mem_iff_get.mp hi
    obtain ⟨_, _, _, -, -, -, hnames, -⟩ := hall.get (hall.length_eq ▸ hn) hn
    exact .inl hnames.1

theorem run_route {c : Catalog} {w : Window} {messages : List Message} {candidates : List Skill}
    {t : Trace} {intents : List Intent} :
    (route c w message messages candidates).Run t intents ↔ ∃ reply,
      t = [⟨.complete [⟨.system, instructions (if candidates.isEmpty then c.skills else candidates)
        c.fallback ++ history w messages⟩, ⟨.user, message⟩], reply⟩] ∧
      intents = intentsOf c message reply := by
  unfold route
  constructor
  · intro h
    obtain ⟨reply, rest, rfl, hrest⟩ := Program.run_ask.mp h
    obtain ⟨rfl, rfl⟩ := Program.run_done.mp hrest
    exact ⟨reply, rfl, rfl⟩
  · rintro ⟨reply, rfl, rfl⟩
    exact Program.run_ask.mpr ⟨reply, [], rfl, Program.run_done.mpr ⟨rfl, rfl⟩⟩

/-- Whatever the model does, routing asks it once, with the message as the user's, and finds an
intent: those that stand on the lines of its reply, in order, or the message itself for the fallback
skill. No other skill than those of the catalog and the fallback is routed to. -/
theorem route_routed (skills : List Skill) (fallback : String) (w : Window) (message : String)
    (messages : List Message) (candidates : List Skill) :
    (∀ t intents,
      (route (.ofSkills skills fallback) w message messages candidates).Run t intents ↔
        ∃ reply, t = [⟨.complete [⟨.system, instructions (if candidates.isEmpty then
            (Catalog.ofSkills skills fallback).skills else candidates) fallback ++
          history w messages⟩, ⟨.user, message⟩], reply⟩] ∧
          Routed (skills.map (·.name)) fallback message reply intents) ∧
    ∀ reply, ∃ intents, Routed (skills.map (·.name)) fallback message reply intents ∧
      (∀ others, Routed (skills.map (·.name)) fallback message reply others → others = intents) ∧
      intents ≠ [] ∧ ∀ i ∈ intents, i.skill ∈ skills.map (·.name) ∨ i.skill = fallback := by
  constructor
  · intro t intents
    rw [run_route]
    simp only [routed_iff]
    rfl
  · intro reply
    have hrouted : Routed (skills.map (·.name)) fallback message reply
      (intentsOf (.ofSkills skills fallback) message reply) := routed_iff.mpr rfl
    exact ⟨_, hrouted, fun others h => routed_iff.mp h, intentsOf_ne_nil _ _ _, fun i =>
      hrouted.mem_names⟩

def namelessSkills : List Skill := [⟨"", "", [], .text ""⟩, ⟨"pay", "", [], .text ""⟩]

/-- What is blank does not even mean a skill without a name. -/
theorem route_nameless :
    Chars.lines "|x".toList = [['|', 'x']] ∧ Intent.Cleaned ['|', 'x'] ['|', 'x'] ∧
      Intent.Parted ['|', 'x'] [] ['x'] ∧ Catalog.Names (namelessSkills.map (·.name)) "" "" ∧
      ∃ asked, (route (.ofSkills namelessSkills "pay") {} "m" [] []).Run
        [⟨.complete asked, .ok "|x"⟩] [⟨"pay", "m"⟩] := by
  have hclean : Intent.Cleaned ['|', 'x'] ['|', 'x'] := Intent.cleaned_iff.mpr (by decide)
  have hparted : Intent.Parted ['|', 'x'] [] ['x'] := ⟨nofun, .inr ⟨'|', rfl, rfl⟩⟩
  have hlines : Chars.lines "|x".toList = [['|', 'x']] := by decide
  have hnames : Catalog.Names (namelessSkills.map (·.name)) "" "" := by
    refine ⟨List.mem_cons_self, .inl ?_⟩
    decide +kernel
  refine ⟨hlines, hclean, hparted, hnames, _, run_route.mpr ⟨_, rfl, routed_iff.mp (.unread _ ?_)⟩⟩
  rw [hlines]
  rintro line hline ⟨i, hi⟩
  obtain rfl := List.mem_singleton.mp hline
  have hread := (Intent.reads_iff (Intent.cleaned_iff.mp hclean ▸ hparted)).mp hi
  cases hread.1

end Route
end Switchboard
