import Switchboard.Proofs.FirstItems
import Switchboard.Proofs.ToolListing
import Switchboard.Proofs.ToolNames

/-! Which tools are bound for the names that a skill declares, and in which order. -/
namespace Switchboard

namespace Handle

def identity (tool : Handle) : String × String := (tool.server, tool.name)

/-- The tools that count for a declared name: those of just this name, and only if there are none
those with a name that ends with it behind an underscore. -/
def Counts (live : List Handle) (short : String) : Handle → Prop :=
  Preferred (·.name = short) (fun tool => ('_' :: short.toList) <:+ tool.name.toList) live

/-- The tools of servers one after the other, each marked with the name of its server. -/
structure Aggregated (groups : List (String × List Handle)) (live : List Handle) : Prop where
  joined : live = groups.flatMap (·.2)
  marked : ∀ g ∈ groups, ∀ tool ∈ g.2, tool.server = g.1

variable {declared before after : List String} {live : List Handle} {short : String}
  {tool : Handle}

theorem declared?_eq_some_iff :
    declared? short live = some tool ↔ FirstWith (Counts live short) live tool := by
  have hor : declared? short live = (live.find? (decide <| ·.name = short)).or
      (live.find? fun h => ('_' :: short.toList) <:+ h.name.toList) := by
    unfold declared?
    simp only [← List.isSuffixOf_iff_suffix, Bool.decide_eq_true]
    cases live.find? (·.name = short) <;> rfl
  rw [hor, find?_or_find?]
  rfl

/-- A name binds a tool just if there is one that it means. -/
theorem exists_counts : (∃ tool, FirstWith (Counts live short) live tool) ↔
    ∃ tool ∈ live, tool.Named short := exists_firstWith.trans exists_preferred

theorem declared?_eq_none (h : ∀ tool ∈ live, ¬ tool.Named short) :
    declared? short live = none := by
  refine Option.eq_none_iff_forall_ne_some.mpr fun tool htool => ?_
  obtain ⟨other, hother, hnamed⟩ := exists_counts.mp ⟨tool, declared?_eq_some_iff.mp htool⟩
  exact h other hother hnamed

/-- The tools that the names bind are taken in one after the other, each tool once. -/
theorem resolve_eq_addNew (declared : List String) (live : List Handle) :
    resolve declared live = addNew identity [] (declared.filterMap (declared? · live)) := by
  rw [resolve, addNew, List.foldl_filterMap]
  congr 1
  funext bound short
  cases declared? short live with
  | none => rfl
  | some tool =>
    have hsame : (bound.any fun b => b.name = tool.name && b.server = tool.server) =
        bound.any (identity · = identity tool) := by
      congr 1
      funext b
      rw [Bool.and_comm, ← Bool.decide_and, decide_eq_decide, identity, identity, Prod.mk.injEq]
    dsimp only
    rw [hsame]

/-- What a declared name binds is bound. -/
theorem mem_resolve (hshort : short ∈ declared) (hbinds : declared? short live = some tool) :
    tool ∈ resolve declared live := by
  have hkey : tool.identity ∈ (resolve declared live).map identity := by
    rw [resolve_eq_addNew, mem_map_addNew]
    exact .inr (List.mem_map_of_mem (List.mem_filterMap.mpr ⟨short, hshort, hbinds⟩))
  obtain ⟨bound, hbound, hsame⟩ := List.mem_map.mp hkey
  obtain ⟨name, -, hname⟩ := declared_of_mem_resolve hbound
  have hname' : bound.name = tool.name := congrArg Prod.snd hsame
  rwa [← eq_of_declared? hname hbinds hname']

/-- A name makes no difference that binds nothing, or that was declared before. -/
theorem resolve_without (h : declared? short live = none ∨ short ∈ before) :
    resolve (before ++ short :: after) live = resolve (before ++ after) live := by
  simp only [resolve_eq_addNew, List.filterMap_append, addNew_append]
  cases hshort : declared? short live with
  | none => rw [List.filterMap_cons_none (by exact hshort)]
  | some tool =>
    have hbefore : short ∈ before := h.resolve_left (by rw [hshort]; exact Option.some_ne_none tool)
    rw [List.filterMap_cons_some (by exact hshort), addNew_cons_of_mem]
    exact mem_map_addNew.mpr (.inr (List.mem_map_of_mem
      (List.mem_filterMap.mpr ⟨_, hbefore, hshort⟩)))

/-- The tool that a name binds is of the first server that has a tool which counts. -/
theorem server_of_aggregated {groups : List (String × List Handle)} (hlive : Aggregated groups live)
    (hbinds : declared? short live = some tool) : ∃ first tools last,
      groups = first ++ (tool.server, tools) :: last ∧ FirstWith (Counts live short) tools tool ∧
        ∀ g ∈ first, ∀ other ∈ g.2, ¬ Counts live short other := by
  have hfirst : FirstWith (Counts live short) (groups.flatMap (·.2)) tool := by
    rw [← hlive.joined]
    exact declared?_eq_some_iff.mp hbinds
  obtain ⟨first, ⟨server, tools⟩, last, rfl, htool, hbefore⟩ := hfirst.flatMap
  have hserver : tool.server = server :=
    hlive.marked _ (List.mem_append_right _ List.mem_cons_self) tool htool.mem
  exact ⟨first, tools, last, by rw [hserver], htool, hbefore⟩

/-- For each declared name in order the first tool is bound that has just this name, or if there is
none the first whose name ends with it behind an underscore; a tool that is bound already is not
bound again. So no tool is bound twice, and a name binds a tool just if there is one that it means.
Names that mean none and names that are declared again make no difference. Where the tools are those
of servers in their order, the tool is of the first server that has one which counts for the
name. -/
theorem resolve_firsts (declared : List String) (live : List Handle) :
    resolve declared live =
      (declared.filterMap (declared? · live)).eraseDupsBy (identity · = identity ·) ∧
    (∀ short tool, declared? short live = some tool ↔ FirstWith (Counts live short) live tool) ∧
    ((resolve declared live).map identity).Nodup ∧
    (∀ short ∈ declared, (∃ tool ∈ resolve declared live, declared? short live = some tool) ↔
      ∃ tool ∈ live, tool.Named short) ∧
    (∀ before short after, (∀ tool ∈ live, ¬ tool.Named short) ∨ short ∈ before →
      resolve (before ++ short :: after) live = resolve (before ++ after) live) ∧
    ∀ groups, Aggregated groups live → ∀ short tool, declared? short live = some tool →
      ∃ first tools last, groups = first ++ (tool.server, tools) :: last ∧
        FirstWith (Counts live short) tools tool ∧
        ∀ g ∈ first, ∀ other ∈ g.2, ¬ Counts live short other := by
  refine ⟨?_, fun _ _ => declared?_eq_some_iff, ?_, fun short hshort => ?_, ?_, ?_⟩
  · rw [resolve_eq_addNew, addNew_nil_left]
  · obtain ⟨bound, hbound, -, hnodup, -⟩ :=
      exists_added identity [] (declared.filterMap (declared? · live))
    rwa [resolve_eq_addNew, hbound]
  · rw [← exists_counts]
    simp only [← declared?_eq_some_iff]
    exact ⟨fun ⟨tool, _, hbinds⟩ => ⟨tool, hbinds⟩,
      fun ⟨tool, hbinds⟩ => ⟨tool, mem_resolve hshort hbinds, hbinds⟩⟩
  · exact fun before short after h => resolve_without (h.imp_left declared?_eq_none)
  · exact fun groups hlive short tool => server_of_aggregated hlive

/-- Tools of two servers, of which the second has one of just the name that the first has behind its
mark. -/
def sampleGroups : List (String × List Handle) :=
  [("a", [ofListed "a" (sampleListing "a_q")]),
    ("b", [ofListed "b" (sampleListing "b_q"), ofListed "b" (sampleListing "q")])]

theorem resolve_firsts_sample :
    let live := sampleGroups.flatMap (·.2)
    let tool := ofListed "b" (sampleListing "q")
    Aggregated sampleGroups live ∧ declared? "q" live = some tool ∧
      resolve (["b_q", "q"] ++ "q" :: ["r"]) live = resolve (["b_q", "q"] ++ ["r"]) live ∧
      resolve (["b_q", "q"] ++ ["r"]) live = [ofListed "b" (sampleListing "b_q"), tool] ∧
      ∃ first tools last, sampleGroups = first ++ ("b", tools) :: last ∧
        FirstWith (Counts live "q") tools tool ∧
        ∀ g ∈ first, ∀ other ∈ g.2, ¬ Counts live "q" other := by
  intro live tool
  have hmarked : ∀ g ∈ sampleGroups, ∀ tool ∈ g.2, tool.server = g.1 := by decide
  have hlive : Aggregated sampleGroups live := ⟨rfl, hmarked⟩
  obtain ⟨-, -, -, -, hwithout, hserver⟩ := resolve_firsts ["b_q", "q", "q", "r"] live
  exact ⟨hlive, rfl, hwithout _ _ _ (.inr (by decide)), rfl, hserver _ hlive "q" tool rfl⟩

end Handle

namespace Pool
open Handle (Aggregated Counts declared?)

variable {p : Pool} {t t' : Table} {cs : Trace} {live : List Handle} {short : String}
  {tool : Handle}

theorem aggregated_visits (p : Pool) (t : Table) (vs : List (ServerConfig × Replies)) :
    ∃ groups : List (String × List Handle), groups.map (·.1) = vs.map (·.1.name) ∧
      Aggregated groups ((p.visits t vs).flatMap (·.tools)) := by
  induction vs generalizing t with
  | nil => exact ⟨[], rfl, rfl, nofun⟩
  | cons v vs ih =>
    obtain ⟨s, r⟩ := v
    obtain ⟨groups, hnames, hjoined, hmarked⟩ :=
      ih (t.settle s.name (p.visit (p.urlOf s.name) s.name (t.get? s.name) r).place)
    refine ⟨(s.name, (p.visit (p.urlOf s.name) s.name (t.get? s.name) r).tools) :: groups, ?_, ?_,
      List.forall_mem_cons.mpr ⟨fun tool htool => ?_, hmarked⟩⟩
    · rw [List.map_cons, List.map_cons, hnames]
    · rw [visits, List.flatMap_cons, List.flatMap_cons, hjoined]
    · exact (p.tagged_of_visit _ _ _ _ tool htool).1

theorem aggregated_of_allTools (h : Leads p.allTools t cs (.ok live) t') :
    ∃ groups : List (String × List Handle), groups.map (·.1) = p.names ∧
      Aggregated groups live := by
  obtain ⟨rs, hlen, -, hgathered, -⟩ := leads_allTools.mp h
  obtain ⟨groups, hnames, hlive⟩ := aggregated_visits p t (p.servers.zip rs)
  have hservers : (p.servers.zip rs).map (·.1.name) = p.names := calc
    _ = ((p.servers.zip rs).map (·.1)).map (·.name) := List.map_map.symm
    _ = p.names := by rw [List.map_fst_zip (Nat.le_of_eq hlen.symm), names]
  refine ⟨groups, hnames.trans hservers, ?_⟩
  unfold gathered at hgathered
  dsimp only at hgathered
  split at hgathered
  · cases hgathered
  · rwa [Except.ok.inj hgathered]

/-- If all servers have names of their own, a declared name binds a tool of the server that is
configured before all others with a tool that counts. -/
theorem server_of_allTools (hnames : p.names.Nodup) (h : Leads p.allTools t cs (.ok live) t')
    (hbinds : declared? short live = some tool) : ∃ first last,
      p.names = first ++ tool.server :: last ∧
        ∀ other ∈ live, Counts live short other → other.server ∉ first := by
  obtain ⟨groups, hgroups, hlive⟩ := aggregated_of_allTools h
  obtain ⟨first, tools, last, rfl, -, hbefore⟩ := Handle.server_of_aggregated hlive hbinds
  rw [List.map_append, List.map_cons] at hgroups
  refine ⟨first.map (·.1), last.map (·.1), hgroups.symm, fun other hother hcounts hmem => ?_⟩
  rw [hlive.joined, List.mem_flatMap] at hother
  obtain ⟨g, hg, hother⟩ := hother
  rw [hlive.marked g hg other hother] at hmem
  rcases List.mem_append.mp hg with hfirst | hlast
  · exact hbefore g hfirst other hother hcounts
  · rw [← hgroups, List.nodup_append] at hnames
    have hg' : g.1 ∈ tool.server :: last.map (·.1) := List.mem_map_of_mem hlast
    exact hnames.2.2 g.1 hmem g.1 hg' rfl

end Pool
end Switchboard
