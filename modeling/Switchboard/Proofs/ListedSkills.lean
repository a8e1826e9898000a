import Mathlib.Data.List.Sort
import Switchboard.Proofs.CatalogNames
import Switchboard.Skill.Folder

/-! The catalog of the documents that a folder lists. Its names are the same in whatever order the
documents are listed; the skill under a name is that of the first document listed with it. -/
namespace Switchboard

namespace Skill

variable {name : String}

theorem find?_firsts (skills : List Skill) :
    (firsts skills).find? (·.name = name) = skills.find? (·.name = name) := by
  induction skills with
  | nil => rfl
  | cons s rest ih =>
    rw [List.find?_cons, ← ih, firsts]
    split
    next hnone =>
      rw [hnone]
      rfl
    next t ts hfirsts =>
      rw [hfirsts]
      split
      next hsame =>
        -- The neighbour that goes has the name of the skill in front of it.
        rw [List.find?_cons, List.find?_cons, hsame]
        cases decide (s.name = name) <;> rfl
      next => rw [List.find?_cons]

theorem filter_sorted (skills : List Skill) :
    (sorted skills).filter (·.name = name) = skills.filter (·.name = name) := by
  have hsame : (skills.filter (·.name = name)).Pairwise
      fun a b => decide (a.name ≤ b.name) = true := by
    refine List.pairwise_of_forall_mem_list fun a ha b hb => decide_eq_true ?_
    have hname : a.name = b.name := (of_decide_eq_true (List.mem_filter.mp ha).2).trans
      (of_decide_eq_true (List.mem_filter.mp hb).2).symm
    exact hname ▸ String.le_refl a.name
  have hsublist : (skills.filter (·.name = name)).Sublist (sorted skills) :=
    List.sublist_mergeSort name_le_trans name_le_total hsame List.filter_sublist
  have hperm := (List.mergeSort_perm skills fun a b => decide (a.name ≤ b.name)).filter
    (decide <| ·.name = name)
  have hfilter := hsublist.filter (decide <| ·.name = name)
  rw [List.filter_filter] at hfilter
  simp only [Bool.and_self] at hfilter
  exact (hfilter.eq_of_length hperm.length_eq.symm).symm

theorem find?_sorted (skills : List Skill) :
    (sorted skills).find? (·.name = name) = skills.find? (·.name = name) := by
  rw [← List.head?_filter, filter_sorted, List.head?_filter]

def listed (documents : List (String × Option String)) : List Skill :=
  documents.filterMap fun d => ofDocument? d.1 d.2

end Skill

namespace Catalog

def ofDocuments (documents : List (String × Option String)) (fallback : String) : Catalog :=
  ofSkills (Skill.ofDocuments documents) fallback

variable {skills skills' : List Skill} {fallback name : String}
variable {documents documents' : List (String × Option String)}

theorem get?_ofSkills : (ofSkills skills fallback).get? name = skills.find? (·.name = name) := by
  rw [get?, ofSkills, Skill.find?_firsts, Skill.find?_sorted]

theorem pairwise_names_ofSkills (skills : List Skill) (fallback : String) :
    (ofSkills skills fallback).names.Pairwise (· < ·) :=
  List.pairwise_map.mpr (pairwise_ofSkills skills fallback)

/-- Names in strict order are told by which there are. -/
theorem names_ofSkills_eq_iff :
    (ofSkills skills fallback).names = (ofSkills skills' fallback).names ↔
    ∀ name, name ∈ skills.map (·.name) ↔ name ∈ skills'.map (·.name) := by
  simp only [← @mem_names_ofSkills _ fallback]
  constructor
  · intro h name
    rw [h]
  · exact (pairwise_names_ofSkills skills fallback).eq_of_mem_iff
      (pairwise_names_ofSkills skills' fallback)

theorem get?_of_mem {s : Skill} (hs : s ∈ (ofSkills skills fallback).skills) :
    (ofSkills skills fallback).get? s.name = some s := by
  obtain ⟨first, hfirst⟩ := exists_firstWith (p := (·.name = s.name)) |>.mpr ⟨s, hs, rfl⟩
  rw [get?, find?_eq_some_iff_firstWith]
  rcases hfirst.least (pairwise_ofSkills skills fallback) hs rfl with heq | hlt
  · rwa [← heq] at hfirst
  · exact absurd (hfirst.holds ▸ hlt) (String.lt_irrefl _)

theorem skills_ofSkills (skills : List Skill) (fallback : String) :
    (ofSkills skills fallback).skills =
      (ofSkills skills fallback).names.filterMap (ofSkills skills fallback).get? := by
  rw [names, List.filterMap_map]
  exact (List.filterMap_some.symm.trans
    (List.filterMap_congr fun s hs => (get?_of_mem hs).symm))

/-- Two lists of skills make the same catalog if they have the same first skill of each name. -/
theorem ofSkills_eq_iff : ofSkills skills fallback = ofSkills skills' fallback ↔
    ∀ name s, FirstWith (·.name = name) skills s ↔ FirstWith (·.name = name) skills' s := by
  simp only [← find?_eq_some_iff_firstWith, ← @get?_ofSkills _ fallback]
  constructor
  · intro h name s
    rw [h]
  · intro h
    have hget : (ofSkills skills fallback).get? = (ofSkills skills' fallback).get? :=
      funext fun name => Option.ext (h name)
    have hnames : (ofSkills skills fallback).names = (ofSkills skills' fallback).names := by
      rw [names_ofSkills_eq_iff]
      intro name
      have hfind := congrArg Option.isSome (congrFun hget name)
      rw [get?_ofSkills, get?_ofSkills, Bool.eq_iff_iff, List.find?_isSome,
        List.find?_isSome] at hfind
      simpa only [List.mem_map, decide_eq_true_iff] using hfind
    have hskills : (ofSkills skills fallback).skills = (ofSkills skills' fallback).skills := by
      rw [skills_ofSkills, skills_ofSkills, hget, hnames]
    exact congrArg (Catalog.mk · fallback) hskills

/-- Where names are not shared the order of the skills does not matter. -/
theorem ofSkills_eq_of_perm (h : skills.Perm skills') (hnodup : (skills.map (·.name)).Nodup) :
    ofSkills skills fallback = ofSkills skills' fallback := by
  have hfirst {skills : List Skill} (hnodup : (skills.map (·.name)).Nodup) (name : String)
      (s : Skill) : FirstWith (·.name = name) skills s ↔ s ∈ skills ∧ s.name = name := by
    refine ⟨fun h => ⟨h.mem, h.holds⟩, fun ⟨hs, hname⟩ => ?_⟩
    obtain ⟨first, hfirst⟩ := exists_firstWith (p := (·.name = name)) |>.mpr ⟨s, hs, hname⟩
    rwa [List.inj_on_of_nodup_map hnodup hs hfirst.mem (hname.trans hfirst.holds.symm)]
  refine ofSkills_eq_iff.mpr fun name s => ?_
  rw [hfirst hnodup, hfirst ((h.map _).nodup_iff.mp hnodup), h.mem_iff]

/-- However the documents of a folder are listed, the catalog has the same names in strict order.
Under each name it has the skill of the first document listed with it, so that two listings make the
same catalog if and only if they agree on these; they do where no two documents share a name. -/
theorem ofDocuments_listed (h : documents.Perm documents') (fallback : String) :
    (ofDocuments documents fallback).names = (ofDocuments documents' fallback).names ∧
      (ofDocuments documents fallback).names.Pairwise (· < ·) ∧
      (∀ name s, (ofDocuments documents fallback).get? name = some s ↔
        FirstWith (·.name = name) (Skill.listed documents) s) ∧
      (ofDocuments documents fallback = ofDocuments documents' fallback ↔
        ∀ name s, FirstWith (·.name = name) (Skill.listed documents) s ↔
          FirstWith (·.name = name) (Skill.listed documents') s) ∧
      (((Skill.listed documents).map (·.name)).Nodup →
        ofDocuments documents fallback = ofDocuments documents' fallback) := by
  have hlisted : (Skill.listed documents).Perm (Skill.listed documents') := h.filterMap _
  have hfirst (documents : List (String × Option String)) (name : String) (s : Skill) :
      FirstWith (·.name = name) (Skill.ofDocuments documents) s ↔
        FirstWith (·.name = name) (Skill.listed documents) s := by
    rw [← find?_eq_some_iff_firstWith, ← find?_eq_some_iff_firstWith, Skill.ofDocuments,
      Skill.find?_sorted]
    rfl
  have hperm : (Skill.ofDocuments documents).Perm (Skill.listed documents) :=
    List.mergeSort_perm _ _
  have hperm' : (Skill.ofDocuments documents').Perm (Skill.listed documents') :=
    List.mergeSort_perm _ _
  refine ⟨?_, pairwise_names_ofSkills _ _, fun name s => ?_, ?_, fun hnodup => ?_⟩
  · rw [ofDocuments, ofDocuments, names_ofSkills_eq_iff]
    exact fun name => ((hperm.trans (hlisted.trans hperm'.symm)).map _).mem_iff
  · rw [ofDocuments, get?_ofSkills, find?_eq_some_iff_firstWith, hfirst]
  · simp only [ofDocuments, ofSkills_eq_iff, hfirst]
  · exact ofSkills_eq_of_perm (hperm.trans (hlisted.trans hperm'.symm))
      ((hperm.map _).nodup_iff.mpr hnodup)

/-- Two documents of different names, listed in both orders, make one catalog. -/
theorem ofDocuments_listed_swapped :
    let weather := ("weather/SKILL.md", some "---\nname: weather\n---\n实时天气")
    let notes := ("notes/SKILL.md", some "---\nname: Notes\n---\n")
    ofDocuments [weather, notes] "general" = ofDocuments [notes, weather] "general" := by
  intro weather notes
  have hnodup : ((Skill.listed [weather, notes]).map (·.name)).Nodup := by decide +kernel
  exact (ofDocuments_listed (.swap notes weather []) "general").2.2.2.2 hnodup

/-- Of two documents whose names differ only in case the one that is listed first counts. -/
theorem ofDocuments_listed_twice :
    let live := ("a/SKILL.md", some "---\nname: Weather\ndescription: 实时天气\n---\n")
    let forecast := ("b/SKILL.md", some "---\nname: weather\ndescription: 天气预报\n---\n")
    [live, forecast].Perm [forecast, live] ∧
      ofDocuments [live, forecast] "general" ≠ ofDocuments [forecast, live] "general" := by
  intro live forecast
  refine ⟨.swap forecast live [], fun heq => ?_⟩
  have hdescription := congrArg (fun c => (c.get? "weather").map (·.description)) heq
  rw [ofDocuments, ofDocuments, get?_ofSkills, get?_ofSkills, Skill.ofDocuments,
    Skill.ofDocuments, Skill.find?_sorted, Skill.find?_sorted] at hdescription
  revert hdescription
  decide +kernel

end Catalog
end Switchboard
