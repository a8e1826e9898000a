/-! Small tables with text keys, in the order in which the keys came first. -/
namespace Switchboard

/-- Pairs of keys and values; the operations keep the keys distinct. -/
abbrev Dict (α : Type) := List (String × α)

namespace Dict

def get? (d : Dict α) (k : String) : Option α := (d.find? (·.1 = k)).map (·.2)

/-- Puts a value in the place of the key's old one, or at the end. -/
def put (k : String) (v : α) : Dict α → Dict α
  | [] => [(k, v)]
  | e :: d => if e.1 = k then (k, v) :: d else e :: put k v d

def erase (k : String) (d : Dict α) : Dict α := d.filter (·.1 ≠ k)

def keys (d : Dict α) : List String := d.map (·.1)

variable {α : Type} {d : Dict α} {k : String}

theorem get?_put_self (k : String) (v : α) (d : Dict α) : (put k v d).get? k = some v := by
  induction d with
  | nil => simp [put, get?]
  | cons e d ih =>
    by_cases h : e.1 = k
    · simp [put, get?, h]
    · simpa [put, get?, h] using ih

theorem get?_put_of_ne {k k' : String} (h : k' ≠ k) (v : α) (d : Dict α) :
    (put k v d).get? k' = d.get? k' := by
  induction d with
  | nil => simp [put, get?, Ne.symm h]
  | cons e d ih =>
    by_cases he : e.1 = k
    · simp [put, get?, he, Ne.symm h]
    · by_cases hk : e.1 = k'
      · have : ¬ k' = k := h
        simp [put, get?, hk, this]
      · simpa [put, get?, he, hk] using ih

theorem get?_erase_self (k : String) (d : Dict α) : (erase k d).get? k = none := by
  simp [get?, erase]

theorem get?_erase_of_ne {k k' : String} (h : k' ≠ k) (d : Dict α) :
    (erase k d).get? k' = d.get? k' := by
  induction d with
  | nil => rfl
  | cons e d ih =>
    by_cases he : e.1 = k
    · have hk : ¬ e.1 = k' := fun hk => h (hk ▸ he)
      simp only [get?, erase] at ih ⊢
      simpa [he, Ne.symm h] using ih
    · by_cases hk : e.1 = k'
      · simp [get?, erase, hk, h]
      · simp only [get?, erase] at ih ⊢
        simpa [he, hk] using ih

/-! Which keys and entries there are. -/

theorem mem_of_get? {v : α} (h : d.get? k = some v) : (k, v) ∈ d := by
  obtain ⟨e, he, rfl⟩ := Option.map_eq_some_iff.mp h
  have hk : e.1 = k := by simpa using List.find?_some he
  rw [← hk]
  exact List.mem_of_find?_eq_some he

theorem mem_keys_of_mem {e : String × α} (h : e ∈ d) : e.1 ∈ d.keys := List.mem_map_of_mem h

theorem mem_keys_of_get? {v : α} (h : d.get? k = some v) : k ∈ d.keys :=
  mem_keys_of_mem (mem_of_get? h)

theorem exists_get?_of_mem_keys (h : k ∈ d.keys) : ∃ v, d.get? k = some v := by
  obtain ⟨e, he, hk⟩ := List.mem_map.mp h
  have hfound : (d.find? (·.1 = k)).isSome = true :=
    List.find?_isSome.mpr ⟨e, he, decide_eq_true hk⟩
  obtain ⟨e', he'⟩ := Option.isSome_iff_exists.mp hfound
  exact ⟨e'.2, by rw [get?, he', Option.map_some]⟩

theorem mem_of_mem_put {e : String × α} {v : α} (h : e ∈ put k v d) : e = (k, v) ∨ e ∈ d := by
  induction d with
  | nil => exact .inl (List.mem_singleton.mp h)
  | cons e' d ih =>
    rw [put] at h
    split at h
    · exact (List.mem_cons.mp h).imp_right (List.mem_cons_of_mem _)
    · rcases List.mem_cons.mp h with rfl | h
      · exact .inr List.mem_cons_self
      · exact (ih h).imp_right (List.mem_cons_of_mem _)

theorem mem_keys_put {k' : String} {v : α} : k' ∈ (put k v d).keys ↔ k' = k ∨ k' ∈ d.keys := by
  induction d with
  | nil => simp [put, keys]
  | cons e d ih =>
    by_cases h : e.1 = k
    · simp [put, keys, h]
    · simp only [keys] at ih
      simp [put, keys, h, ih, or_left_comm]

theorem nodup_keys_put (h : d.keys.Nodup) (k : String) (v : α) : (put k v d).keys.Nodup := by
  induction d with
  | nil => simp [put, keys]
  | cons e d ih =>
    obtain ⟨he, hd⟩ := List.nodup_cons.mp h
    by_cases hk : e.1 = k
    · rw [put, if_pos hk, ← hk]
      exact h
    · rw [put, if_neg hk]
      have hout : e.1 ∉ (put k v d).keys := fun hmem => (mem_keys_put.mp hmem).elim hk he
      exact List.nodup_cons.mpr ⟨hout, ih hd⟩

theorem erase_sublist (k : String) (d : Dict α) : (erase k d).Sublist d := List.filter_sublist

theorem nodup_keys_erase (h : d.keys.Nodup) (k : String) : (erase k d).keys.Nodup :=
  h.sublist ((erase_sublist k d).map _)

theorem erase_eq_self (h : k ∉ d.keys) : erase k d = d := by
  refine List.filter_eq_self.mpr fun e he => decide_eq_true fun hk => ?_
  exact h (hk ▸ mem_keys_of_mem he)

/-! What is put where something stands. -/

theorem put_put (k : String) (v w : α) (d : Dict α) : put k w (put k v d) = put k w d := by
  induction d with
  | nil => simp [put]
  | cons e d ih =>
    by_cases h : e.1 = k
    · simp [put, h]
    · simp [put, h, ih]

/-- A value that is put where it stands changes nothing. -/
theorem put_get? {v : α} (h : d.get? k = some v) : put k v d = d := by
  induction d with
  | nil => simp [get?] at h
  | cons e d ih =>
    by_cases he : e.1 = k
    · have hv : e.2 = v := by simpa [get?, he] using h
      subst hv he
      simp [put]
    · have hd : Dict.get? d k = some v := by simpa [get?, he] using h
      simp [put, he, ih hd]

end Dict
end Switchboard
