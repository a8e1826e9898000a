import Mathlib.Data.List.Nodup

/-! First items: the first with a property, the first of those that are preferred, and lists that
take in only the first item with each key. -/
namespace Switchboard

variable {α β κ : Type} {p q : α → Prop} {l l' : List α} {x y : α}

def FirstWith (p : α → Prop) (l : List α) (x : α) : Prop :=
  ∃ before after, l = before ++ x :: after ∧ p x ∧ ∀ y ∈ before, ¬ p y

theorem FirstWith.mem (h : FirstWith p l x) : x ∈ l := by
  obtain ⟨before, after, rfl, -, -⟩ := h
  exact List.mem_append_right _ List.mem_cons_self

theorem FirstWith.holds (h : FirstWith p l x) : p x := by
  obtain ⟨-, -, -, hx, -⟩ := h
  exact hx

theorem find?_eq_some_iff_firstWith [DecidablePred p] :
    l.find? (decide <| p ·) = some x ↔ FirstWith p l x := by
  rw [List.find?_eq_some_iff_append, decide_eq_true_iff]
  constructor
  · rintro ⟨hx, before, after, hl, hbefore⟩
    exact ⟨before, after, hl, hx, fun y hy => by simpa using hbefore y hy⟩
  · rintro ⟨before, after, hl, hx, hbefore⟩
    exact ⟨hx, before, after, hl, fun y hy => by simpa using hbefore y hy⟩

theorem exists_firstWith : (∃ x, FirstWith p l x) ↔ ∃ x ∈ l, p x := by
  classical
  simp only [← find?_eq_some_iff_firstWith, ← Option.isSome_iff_exists, List.find?_isSome,
    decide_eq_true_iff]

theorem firstWith_congr (h : ∀ y ∈ l, p y ↔ q y) : FirstWith p l x ↔ FirstWith q l x := by
  constructor
  · rintro ⟨before, after, rfl, hx, hbefore⟩
    obtain ⟨hpq, hself, -⟩ := List.forall_mem_append.mp h |>.imp_right List.forall_mem_cons.mp
    exact ⟨before, after, rfl, hself.mp hx, fun y hy => mt (hpq y hy).mpr (hbefore y hy)⟩
  · rintro ⟨before, after, rfl, hx, hbefore⟩
    obtain ⟨hpq, hself, -⟩ := List.forall_mem_append.mp h |>.imp_right List.forall_mem_cons.mp
    exact ⟨before, after, rfl, hself.mpr hx, fun y hy => mt (hpq y hy).mp (hbefore y hy)⟩

theorem firstWith_append : FirstWith p (l ++ l') x ↔
    FirstWith p l x ∨ (∀ y ∈ l, ¬ p y) ∧ FirstWith p l' x := by
  classical
  simp only [← find?_eq_some_iff_firstWith, List.find?_append, Option.or_eq_some_iff,
    List.find?_eq_none, decide_eq_true_iff]

theorem firstWith_cons_self (h : p x) : FirstWith p (x :: l) x := ⟨[], l, rfl, h, nofun⟩

theorem FirstWith.cons (hy : ¬ p y) (h : FirstWith p l x) : FirstWith p (y :: l) x :=
  firstWith_append.mpr (.inr ⟨List.forall_mem_singleton.mpr hy, h⟩)

/-- In a list in order the first item with a property comes before all others with it. -/
theorem FirstWith.least {r : α → α → Prop} (hl : l.Pairwise r) (h : FirstWith p l x) (hy : y ∈ l)
    (hpy : p y) : y = x ∨ r x y := by
  obtain ⟨before, after, rfl, -, hbefore⟩ := h
  rcases List.mem_append.mp hy with hy | hy
  · exact absurd hpy (hbefore y hy)
  · have hafter := (List.pairwise_cons.mp (List.pairwise_append.mp hl).2.1).1
    exact (List.mem_cons.mp hy).imp_right (hafter y)

/-- The first item of many lists one after the other is the first of the first list that has one. -/
theorem FirstWith.flatMap {f : β → List α} {groups : List β}
    (h : FirstWith p (groups.flatMap f) x) :
    ∃ before g after, groups = before ++ g :: after ∧ FirstWith p (f g) x ∧
      ∀ b ∈ before, ∀ y ∈ f b, ¬ p y := by
  induction groups with
  | nil => cases h.mem
  | cons g groups ih =>
    rcases firstWith_append.mp h with hfirst | ⟨hnone, hrest⟩
    · exact ⟨[], g, groups, rfl, hfirst, nofun⟩
    · obtain ⟨before, g', after, rfl, hfirst, hbefore⟩ := ih hrest
      exact ⟨g :: before, g', after, rfl, hfirst, List.forall_mem_cons.mpr ⟨hnone, hbefore⟩⟩

/-- Of the items of the list those with the one property are preferred, and those with the other one
come in only where none has it. -/
def Preferred (p q : α → Prop) (l : List α) (x : α) : Prop := p x ∨ (∀ y ∈ l, ¬ p y) ∧ q x

theorem find?_or_find? [DecidablePred p] [DecidablePred q] :
    (l.find? (decide <| p ·)).or (l.find? (decide <| q ·)) = some x ↔
      FirstWith (Preferred p q l) l x := by
  by_cases hp : ∃ y ∈ l, p y
  · obtain ⟨y, hy, hpy⟩ := hp
    have hpreferred : ∀ z ∈ l, Preferred p q l z ↔ p z :=
      fun z _ => ⟨fun h => h.resolve_right fun hnone => hnone.1 y hy hpy, .inl⟩
    have hfound : ¬ l.find? (decide <| p ·) = none :=
      fun hnone => List.find?_eq_none.mp hnone y hy (decide_eq_true hpy)
    rw [firstWith_congr hpreferred, Option.or_eq_some_iff, find?_eq_some_iff_firstWith,
      or_iff_left fun h => hfound h.1]
  · have hnone : ∀ y ∈ l, ¬ p y := fun y hy hpy => hp ⟨y, hy, hpy⟩
    have hpreferred : ∀ z ∈ l, Preferred p q l z ↔ q z :=
      fun z hz => ⟨fun h => (h.resolve_left (hnone z hz)).2, fun h => .inr ⟨hnone, h⟩⟩
    have hmissed : l.find? (decide <| p ·) = none :=
      List.find?_eq_none.mpr fun y hy => by simpa using hnone y hy
    rw [firstWith_congr hpreferred, hmissed, Option.none_or, find?_eq_some_iff_firstWith]

theorem exists_preferred : (∃ x ∈ l, Preferred p q l x) ↔ ∃ x ∈ l, p x ∨ q x := by
  constructor
  · rintro ⟨x, hx, hp | ⟨-, hq⟩⟩
    · exact ⟨x, hx, .inl hp⟩
    · exact ⟨x, hx, .inr hq⟩
  · rintro ⟨x, hx, hpq⟩
    by_cases hp : ∃ y ∈ l, p y
    · exact hp.imp fun y hy => ⟨hy.1, .inl hy.2⟩
    · have hnone : ∀ y ∈ l, ¬ p y := fun y hy hpy => hp ⟨y, hy, hpy⟩
      exact ⟨x, hx, .inr ⟨hnone, hpq.resolve_left (hnone x hx)⟩⟩

section
variable [DecidableEq κ] {key : α → κ} {there items more : List α} {k : κ}

/-- Takes in items one after the other, each unless there is one with its key. -/
def addNew (key : α → κ) (there items : List α) : List α :=
  items.foldl (fun there x => if there.any (key · = key x) then there else there ++ [x]) there

@[simp] theorem addNew_nil : addNew key there [] = there := rfl

theorem addNew_append :
    addNew key there (items ++ more) = addNew key (addNew key there items) more :=
  List.foldl_append

theorem any_key : there.any (key · = k) = true ↔ k ∈ there.map key := by
  simp only [List.any_eq_true, decide_eq_true_iff, List.mem_map]

theorem addNew_cons_of_mem (h : key x ∈ there.map key) :
    addNew key there (x :: items) = addNew key there items := by
  rw [addNew, List.foldl_cons, if_pos (any_key.mpr h), addNew]

theorem addNew_cons_of_notMem (h : key x ∉ there.map key) :
    addNew key there (x :: items) = addNew key (there ++ [x]) items := by
  rw [addNew, List.foldl_cons, if_neg (mt any_key.mp h), addNew]

/-- Items whose keys are all there leave the list as it is. -/
theorem addNew_eq_self (h : ∀ x ∈ items, key x ∈ there.map key) :
    addNew key there items = there := by
  induction items with
  | nil => rfl
  | cons x items ih =>
    obtain ⟨hx, hitems⟩ := List.forall_mem_cons.mp h
    rw [addNew_cons_of_mem hx, ih hitems]

theorem mem_map_addNew :
    k ∈ (addNew key there items).map key ↔ k ∈ there.map key ∨ k ∈ items.map key := by
  induction items generalizing there with
  | nil => simp
  | cons x items ih =>
    rw [List.map_cons, List.mem_cons]
    by_cases hx : key x ∈ there.map key
    · have hthere : (k = key x ∨ k ∈ there.map key ∨ k ∈ items.map key) ↔
          k ∈ there.map key ∨ k ∈ items.map key := or_iff_right_of_imp fun h => .inl (h ▸ hx)
      rw [addNew_cons_of_mem hx, ih, or_left_comm, hthere]
    · rw [addNew_cons_of_notMem hx, ih, List.map_append, List.mem_append, List.map_singleton,
        List.mem_singleton, or_assoc]

/-- What is taken in comes behind what was there: some of the items, each the first with its key, a
key that was not there. -/
theorem exists_added (key : α → κ) (there items : List α) : ∃ added,
    addNew key there items = there ++ added ∧ added.Sublist items ∧ (added.map key).Nodup ∧
      ∀ x ∈ added, key x ∉ there.map key ∧ FirstWith (key · = key x) items x := by
  induction items generalizing there with
  | nil => exact ⟨[], (List.append_nil _).symm, .slnil, List.nodup_nil, nofun⟩
  | cons x items ih =>
    by_cases hx : key x ∈ there.map key
    · obtain ⟨added, hadd, hsub, hnodup, hnew⟩ := ih there
      refine ⟨added, (addNew_cons_of_mem hx).trans hadd, hsub.cons x, hnodup, fun y hy => ?_⟩
      obtain ⟨hkey, hfirst⟩ := hnew y hy
      exact ⟨hkey, hfirst.cons fun hsame => hkey (hsame ▸ hx)⟩
    · obtain ⟨added, hadd, hsub, hnodup, hnew⟩ := ih (there ++ [x])
      have hapart : ∀ y ∈ added, key y ∉ there.map key ∧ key x ≠ key y := fun y hy => by
        have hkey := (hnew y hy).1
        rw [List.map_append, List.mem_append, not_or, List.map_singleton,
          List.mem_singleton] at hkey
        exact ⟨hkey.1, Ne.symm hkey.2⟩
      refine ⟨x :: added, ?_, hsub.cons_cons x, ?_, List.forall_mem_cons.mpr
        ⟨⟨hx, firstWith_cons_self rfl⟩, fun y hy => ⟨(hapart y hy).1, ?_⟩⟩⟩
      · rw [addNew_cons_of_notMem hx, hadd, List.append_assoc, List.singleton_append]
      · refine List.nodup_cons.mpr ⟨fun hmem => ?_, hnodup⟩
        obtain ⟨y, hy, hsame⟩ := List.mem_map.mp hmem
        exact (hapart y hy).2 hsame.symm
      · exact (hnew y hy).2.cons (hapart y hy).2

/-- Taking items into no list leaves out the later ones with a key that came before. -/
theorem addNew_nil_left (key : α → κ) (items : List α) :
    addNew key [] items = items.eraseDupsBy (key · = key ·) := by
  have hloop (kept : List α) :
      List.eraseDupsBy.loop (fun x y => decide (key x = key y)) items kept =
        addNew key kept.reverse items := by
    induction items generalizing kept with
    | nil => rfl
    | cons x items ih =>
      have hany : kept.any (decide <| key x = key ·) = kept.reverse.any (key · = key x) := by
        rw [List.any_reverse]
        exact congrArg _ (funext fun y => by rw [decide_eq_decide]; exact eq_comm)
      rw [List.eraseDupsBy.loop, hany, addNew, List.foldl_cons, ← addNew]
      split
      next h => rw [ih, if_pos h]
      next h =>
        rw [ih, if_neg (by rw [h]; exact Bool.false_ne_true), List.reverse_cons]
  exact (hloop []).symm

end
end Switchboard
