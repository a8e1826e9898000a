import Switchboard.Proofs.FirstItems
import Switchboard.Skill.Catalog

/-! The names of a catalog, in order and each once, and which of them a word means. -/
namespace Switchboard

namespace Skill

variable {skills : List Skill} {name : String}

theorem mem_map_firsts :
    name ∈ (firsts skills).map (·.name) ↔ name ∈ skills.map (·.name) := by
  induction skills with
  | nil => rfl
  | cons s rest ih =>
    rw [List.map_cons, List.mem_cons, ← ih, firsts]
    split
    next hnone => rw [hnone, List.map_singleton, List.mem_singleton, List.map_nil,
      or_iff_left List.not_mem_nil]
    next t ts hfirsts =>
      rw [hfirsts]
      split
      next hsame => rw [List.map_cons, List.map_cons, List.mem_cons, List.mem_cons, hsame,
        or_self_left]
      next => rw [List.map_cons, List.mem_cons]

/-- Among sorted skills equal names are neighbours, so that each is left once. -/
theorem pairwise_firsts (h : skills.Pairwise (·.name ≤ ·.name)) :
    (firsts skills).Pairwise (·.name < ·.name) := by
  induction skills with
  | nil => exact .nil
  | cons s rest ih =>
    obtain ⟨hs, hrest⟩ := List.pairwise_cons.mp h
    rw [firsts]
    split
    next => exact List.pairwise_singleton _ _
    next t ts hfirsts =>
      have hsorted := ih hrest
      rw [hfirsts] at hsorted
      obtain ⟨ht, hts⟩ := List.pairwise_cons.mp hsorted
      split
      next hsame => exact List.pairwise_cons.mpr ⟨fun u hu => hsame ▸ ht u hu, hts⟩
      next hne =>
        have htop : t.name ∈ rest.map (·.name) := by
          rw [← mem_map_firsts, hfirsts]
          exact List.mem_cons_self
        obtain ⟨first, hfirst, hname⟩ := List.mem_map.mp htop
        have hst : s.name < t.name := Std.lt_of_le_of_ne (hname ▸ hs first hfirst) (Ne.symm hne)
        refine List.pairwise_cons.mpr ⟨List.forall_mem_cons.mpr ⟨hst, fun u hu => ?_⟩, hsorted⟩
        exact String.lt_trans hst (ht u hu)

theorem name_le_trans (a b c : Skill) (hab : decide (a.name ≤ b.name) = true)
    (hbc : decide (b.name ≤ c.name) = true) : decide (a.name ≤ c.name) = true :=
  decide_eq_true (String.le_trans (of_decide_eq_true hab) (of_decide_eq_true hbc))

theorem name_le_total (a b : Skill) :
    (decide (a.name ≤ b.name) || decide (b.name ≤ a.name)) = true := by
  rw [Bool.or_eq_true, decide_eq_true_iff, decide_eq_true_iff]
  exact String.le_total ..

theorem pairwise_sorted (skills : List Skill) : (sorted skills).Pairwise (·.name ≤ ·.name) :=
  (List.pairwise_mergeSort name_le_trans name_le_total skills).imp fun h => of_decide_eq_true h

end Skill

namespace Catalog

variable {skills : List Skill} {fallback word name : String}

theorem mem_names_ofSkills :
    name ∈ (ofSkills skills fallback).names ↔ name ∈ skills.map (·.name) := by
  rw [names, ofSkills, Skill.mem_map_firsts, Skill.sorted]
  exact ((List.mergeSort_perm skills _).map _).mem_iff

theorem pairwise_ofSkills (skills : List Skill) (fallback : String) :
    (ofSkills skills fallback).skills.Pairwise (·.name < ·.name) :=
  Skill.pairwise_firsts (Skill.pairwise_sorted skills)

/-- A word as it is compared with names: without blanks around it and in lower case. -/
def plain (word : String) : String := Text.lower (Text.trim word)

/-- The word names the skill: it is the skill's name; or it is no skill's name, and of the names
that occur in it the skill's comes first in order. -/
def Names (names : List String) (word name : String) : Prop :=
  name ∈ names ∧ (name = plain word ∨ plain word ∉ names ∧
    name.toList <:+: (plain word).toList ∧
    ∀ other ∈ names, other.toList <:+: (plain word).toList → name ≤ other)

theorem isEmpty_plain (word : String) : (plain word).isEmpty = Text.isBlankText word := by
  rw [Bool.eq_iff_iff, String.isEmpty_iff, plain, Text.lower_eq_empty, Text.trim,
    String.ofList_eq_empty_iff, Chars.trim_eq_nil, Text.isBlankText]

theorem match?_eq_some_iff {c : Catalog} {s : Skill} : c.match? word = some s ↔
    Text.isBlankText word = false ∧
      FirstWith (Preferred (·.name = plain word) (·.name.toList <:+: (plain word).toList) c.skills)
        c.skills s := by
  have hfind : (c.get? (plain word)).or
      (c.skills.find? fun s => Text.contains s.name (plain word)) =
      (c.skills.find? (decide <| ·.name = plain word)).or
        (c.skills.find? (decide <| ·.name.toList <:+: (plain word).toList)) := by
    simp only [Text.contains, ← Chars.contains_iff, Bool.decide_eq_true]
    rfl
  rw [match?, ← plain, isEmpty_plain]
  cases Text.isBlankText word with
  | true => exact iff_of_false nofun fun h => nomatch h.1
  | false => rw [if_neg Bool.false_ne_true, hfind, find?_or_find?, and_iff_right rfl]

/-- A word means the skill that it names, but a blank word means none. -/
theorem match?_ofSkills : (∃ s, (ofSkills skills fallback).match? word = some s ∧ s.name = name) ↔
    Text.isBlankText word = false ∧ Names (skills.map (·.name)) word name := by
  have hsorted := pairwise_ofSkills skills fallback
  have hmem (name : String) :
      name ∈ skills.map (·.name) ↔ name ∈ (ofSkills skills fallback).names :=
    mem_names_ofSkills.symm
  simp only [match?_eq_some_iff, Names, hmem]
  constructor
  · rintro ⟨s, ⟨hblank, hfirst⟩, rfl⟩
    refine ⟨hblank, List.mem_map_of_mem hfirst.mem, hfirst.holds.imp_right ?_⟩
    rintro ⟨hnone, hoccurs⟩
    refine ⟨fun hmem => ?_, hoccurs, fun other hother hin => ?_⟩
    · obtain ⟨t, ht, hname⟩ := List.mem_map.mp hmem
      exact hnone t ht hname
    · obtain ⟨t, ht, rfl⟩ := List.mem_map.mp hother
      rcases hfirst.least hsorted ht (.inr ⟨hnone, hin⟩) with rfl | hlt
      · exact String.le_refl _
      · exact Std.le_of_lt hlt
  · rintro ⟨hblank, hmem, hnames⟩
    obtain ⟨s, hs, rfl⟩ := List.mem_map.mp hmem
    have hpreferred : Preferred (·.name = plain word) (·.name.toList <:+: (plain word).toList)
        (ofSkills skills fallback).skills s := hnames.imp_right fun h =>
      ⟨fun t ht hname => h.1 (hname ▸ List.mem_map_of_mem ht), h.2.1⟩
    obtain ⟨first, hfirst⟩ := exists_firstWith.mpr ⟨s, hs, hpreferred⟩
    refine ⟨first, ⟨hblank, hfirst⟩, ?_⟩
    rcases hfirst.least hsorted hs hpreferred with rfl | hlt
    · rfl
    rcases hfirst.holds with hexact | ⟨hnone, hoccurs⟩
    · rcases hnames with hname | ⟨hnot, -, -⟩
      · rw [hexact, hname]
      · exact absurd (hexact ▸ List.mem_map_of_mem hfirst.mem) hnot
    · rcases hnames with hname | ⟨-, -, hmin⟩
      · exact absurd hname (hnone s hs)
      · exact absurd (hmin _ (List.mem_map_of_mem hfirst.mem) hoccurs) (String.not_le.mpr hlt)

end Catalog
end Switchboard
