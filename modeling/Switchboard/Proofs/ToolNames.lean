import Mathlib.Data.List.Induction
import Switchboard.Proofs.ToolRights

/-! When a call by the name that a skill declares reaches the tool that was bound for it. -/
namespace Switchboard.Handle

/-- Two searches that would each take what the other finds find the same. -/
theorem eq_of_find? {α : Type} {p q : α → Bool} {l : List α} {a b : α} (ha : l.find? p = some a)
    (hb : l.find? q = some b) (hqa : q a = true) (hpb : p b = true) : a = b := by
  induction l with
  | nil => cases ha
  | cons x l ih =>
    by_cases hp : p x = true <;> by_cases hq : q x = true
    · rw [List.find?_cons_of_pos hp] at ha
      rw [List.find?_cons_of_pos hq] at hb
      exact Option.some.inj (ha.symm.trans hb)
    · rw [List.find?_cons_of_pos hp] at ha
      exact absurd (Option.some.inj ha ▸ hqa) hq
    · rw [List.find?_cons_of_pos hq] at hb
      exact absurd (Option.some.inj hb ▸ hpb) hp
    · rw [List.find?_cons_of_neg hp] at ha
      rw [List.find?_cons_of_neg hq] at hb
      exact ih ha hb

section
variable {declared : List String} {live : List Handle} {short name : String} {tool other : Handle}

/-- What is bound for a name is the first tool there is with a certain property of its name. -/
theorem find?_of_declared? (h : declared? short live = some tool) :
    ∃ p : String → Bool, live.find? (p ·.name) = some tool := by
  unfold declared? at h
  split at h
  next hfound => exact ⟨(decide <| · = short), hfound.trans h⟩
  next => exact ⟨fun n => ('_' :: short.toList).isSuffixOf n.toList, h⟩

/-- Two names never bind different tools of one name. -/
theorem eq_of_declared? (h : declared? short live = some tool)
    (h' : declared? name live = some other) (hname : tool.name = other.name) : tool = other := by
  obtain ⟨p, hp⟩ := find?_of_declared? h
  obtain ⟨q, hq⟩ := find?_of_declared? h'
  exact eq_of_find? hp hq (hname ▸ List.find?_some hq :) (hname ▸ List.find?_some hp :)

/-- A tool of just that name is bound if there is one. -/
theorem name_of_declared? (h : declared? short live = some tool) (hother : other ∈ live)
    (hname : other.name = short) : tool.name = short := by
  unfold declared? at h
  split at h
  next found hfound =>
    cases h
    have hsame := List.find?_some hfound
    exact of_decide_eq_true hsame
  next hnone => exact absurd (decide_eq_true hname) (List.find?_eq_none.mp hnone other hother)

theorem resolve_concat (declared : List String) (short : String) (live : List Handle) :
    resolve (declared ++ [short]) live = match declared? short live with
      | some h => if (resolve declared live).any fun b => b.name = h.name && b.server = h.server
        then resolve declared live else resolve declared live ++ [h]
      | none => resolve declared live := by
  rw [resolve, List.foldl_append]
  rfl

theorem declared_of_mem_resolve (h : tool ∈ resolve declared live) :
    ∃ name ∈ declared, declared? name live = some tool := by
  induction declared using List.reverseRecOn with
  | nil => cases h
  | append_singleton declared short ih =>
    have hbefore (h : tool ∈ resolve declared live) :
        ∃ name ∈ declared ++ [short], declared? name live = some tool :=
      (ih h).imp fun _ hname => ⟨List.mem_append_left _ hname.1, hname.2⟩
    rw [resolve_concat] at h
    split at h
    next found hfound =>
      split at h
      next => exact hbefore h
      next =>
        rcases List.mem_append.mp h with h | h
        · exact hbefore h
        · rw [List.mem_singleton.mp h]
          exact ⟨short, List.mem_append_right _ (List.mem_singleton_self short), hfound⟩
    next => exact hbefore h

/-- A search among the bound tools is one among what the names bind, in order of declaration: a tool
that is left out is bound already. -/
theorem find?_resolve (p : Handle → Bool) :
    (resolve declared live).find? p = (declared.filterMap (declared? · live)).find? p := by
  induction declared using List.reverseRecOn with
  | nil => rfl
  | append_singleton declared short ih =>
    rw [resolve_concat, List.filterMap_append, List.find?_append, ← ih]
    cases hshort : declared? short live with
    | none => rw [List.filterMap_cons_none (by exact hshort), List.filterMap_nil, List.find?_nil,
        Option.or_none]
    | some tool =>
      rw [List.filterMap_cons_some (by exact hshort), List.filterMap_nil]
      dsimp only
      split
      next hany =>
        obtain ⟨bound, hbound, hsame⟩ := List.any_eq_true.mp hany
        obtain ⟨name, -, hname⟩ := declared_of_mem_resolve hbound
        have hsame : bound.name = tool.name := by
          rw [Bool.and_eq_true] at hsame
          exact of_decide_eq_true hsame.1
        obtain rfl := eq_of_declared? hname hshort hsame
        cases hfound : (resolve declared live).find? p with
        | some found => rw [Option.some_or]
        | none =>
          rw [List.find?_cons_of_neg (List.find?_eq_none.mp hfound bound hbound), List.find?_nil,
            Option.or_none]
      next => rw [List.find?_append]

/-- The tool is bound before all others of that short name. -/
def BoundFirst (declared : List String) (live : List Handle) (short : String) (tool : Handle) :
    Prop :=
  ∃ before name after, declared = before ++ name :: after ∧ declared? name live = some tool ∧
    ∀ d ∈ before, ∀ other, declared? d live = some other → other.short ≠ short

theorem find?_short_resolve : (resolve declared live).find? (·.short = short) = some tool ↔
    tool.short = short ∧ BoundFirst declared live short tool := by
  rw [find?_resolve, List.find?_eq_some_iff_append, decide_eq_true_iff]
  refine and_congr_right fun _ => ⟨?_, ?_⟩
  · rintro ⟨before, after, hsplit, hbefore⟩
    obtain ⟨first, rest, rfl, rfl, hrest⟩ := List.filterMap_eq_append_iff.mp hsplit
    obtain ⟨vain, name, last, rfl, hvain, hname, -⟩ := List.filterMap_eq_cons_iff.mp hrest
    refine ⟨first ++ vain, name, last, (List.append_assoc ..).symm, hname, fun d hd other ho => ?_⟩
    rcases List.mem_append.mp hd with hd | hd
    · simpa using hbefore other (List.mem_filterMap.mpr ⟨d, hd, ho⟩)
    · cases (hvain d hd).symm.trans ho
  · rintro ⟨before, name, after, rfl, hname, hbefore⟩
    refine ⟨before.filterMap (declared? · live), after.filterMap (declared? · live), ?_, ?_⟩
    · rw [List.filterMap_append, List.filterMap_cons_some (by exact hname)]
    · intro other ho
      obtain ⟨d, hd, ho⟩ := List.mem_filterMap.mp ho
      simpa using hbefore d hd other ho

/-- A call by a declared name reaches the tool that the name binds if that is the tool's full name,
or else its short name and no other tool of that short name is bound before it. -/
theorem called?_resolve (hshort : short ∈ declared) (hbinds : declared? short live = some tool) :
    called? short (resolve declared live) = some tool ↔
      tool.name = short ∨ tool.short = short ∧ BoundFirst declared live short tool := by
  by_cases hname : tool.name = short
  · refine iff_of_true ?_ (.inl hname)
    have hmem : tool ∈ declared.filterMap (declared? · live) :=
      List.mem_filterMap.mpr ⟨short, hshort, hbinds⟩
    have hsome : ((declared.filterMap (declared? · live)).find? (·.name = short)).isSome = true :=
      List.find?_isSome.mpr ⟨tool, hmem, by exact decide_eq_true hname⟩
    obtain ⟨found, hfound⟩ := Option.isSome_iff_exists.mp hsome
    obtain ⟨d, -, hd⟩ := List.mem_filterMap.mp (List.mem_of_find?_eq_some hfound)
    have hsame := List.find?_some hfound
    obtain rfl := eq_of_declared? hd hbinds ((of_decide_eq_true hsame).trans hname.symm)
    rw [called?, find?_resolve, hfound]
  · have hnone : (resolve declared live).find? (·.name = short) = none := by
      refine List.find?_eq_none.mpr fun other ho hsame => hname ?_
      exact name_of_declared? hbinds (among_resolve _ _ other ho).1 (of_decide_eq_true hsame)
    rw [called?, hnone, or_iff_right hname]
    exact find?_short_resolve

end

/-- Among the tools of any servers, a call by a name that a skill declares reaches the tool that was
bound for the name just in two cases: it is the tool's full name; or the full name is this name
behind the mark of the tool's own server, and of the tools with this short name it is bound
first. -/
theorem called?_declared {declared : List String} {listed : List (String × ListedTool)}
    {short : String} {tool : Handle} (hshort : short ∈ declared)
    (hbinds : declared? short (listed.map fun t => ofListed t.1 t.2) = some tool) :
    called? short (resolve declared (listed.map fun t => ofListed t.1 t.2)) = some tool ↔
      tool.name = short ∨ Marked tool.server short tool.name ∧
        BoundFirst declared (listed.map fun t => ofListed t.1 t.2) short tool := by
  rw [called?_resolve hshort hbinds]
  by_cases hname : tool.name = short
  · rw [or_iff_left_of_imp fun _ => hname, or_iff_left_of_imp fun _ => hname]
  · obtain ⟨t, -, rfl⟩ := List.mem_map.mp (named_of_declared? hbinds).1
    exact or_congr_right (and_congr_left fun _ => shortName_eq hname)

def sampleListing (name : String) : ListedTool := ⟨name, "", .null⟩

theorem called?_declared_sample :
    let listed :=
      [("order-db", sampleListing "order_db__queryOrder"), ("shop", sampleListing "ping")]
    let live := listed.map fun t => ofListed t.1 t.2
    let tool := ofListed "order-db" (sampleListing "order_db__queryOrder")
    "queryOrder" ∈ ["ping", "queryOrder"] ∧ declared? "queryOrder" live = some tool ∧
      (called? "queryOrder" (resolve ["ping", "queryOrder"] live) = some tool ↔
        tool.name = "queryOrder" ∨ Marked tool.server "queryOrder" tool.name ∧
          BoundFirst ["ping", "queryOrder"] live "queryOrder" tool) ∧
      called? "queryOrder" (resolve ["ping", "queryOrder"] live) = some tool := by
  have hmem : "queryOrder" ∈ ["ping", "queryOrder"] := by decide
  have hbinds : declared? "queryOrder"
      ([("order-db", sampleListing "order_db__queryOrder"), ("shop", sampleListing "ping")].map
        fun t => ofListed t.1 t.2) =
      some (ofListed "order-db" (sampleListing "order_db__queryOrder")) := rfl
  exact ⟨hmem, hbinds, called?_declared hmem hbinds, rfl⟩

/-- Where two servers offer tools of one short name a call can reach the other one; and a tool whose
name has not its server's mark is bound for a short name by which it cannot be called. -/
theorem call_astray :
    let twins := [ofListed "a" (sampleListing "a_q"), ofListed "b" (sampleListing "b_q")]
    let stray := ofListed "s" (sampleListing "biz_q")
    declared? "q" twins = some (ofListed "a" (sampleListing "a_q")) ∧
      called? "q" (resolve ["b_q", "q"] twins) = some (ofListed "b" (sampleListing "b_q")) ∧
      declared? "q" [stray] = some stray ∧ called? "q" (resolve ["q"] [stray]) = none :=
  ⟨rfl, rfl, rfl, rfl⟩

end Switchboard.Handle
