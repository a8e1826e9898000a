import Mathlib.Data.String.Basic
import Switchboard.Proofs.JsonText

/-! Values that were read from a text: what is printed for them is read as the same value again, as
long as each double in them is. -/
namespace Switchboard.Json

/-! Integers. -/

theorem le_foldl_digits (ds : List Nat) (n : Nat) : n ≤ ds.foldl (fun n d => n * 10 + d) n := by
  induction ds generalizing n with
  | nil => exact le_rfl
  | cons d ds ih => exact (by omega : n ≤ n * 10 + d).trans (ih _)

theorem gather_fst_lt {n : Nat} (hn : n < twoTo 64) (ds : List Nat) :
    (gather n ds).1 < twoTo 64 := by
  induction ds generalizing n with
  | nil => exact hn
  | cons d ds ih =>
    rw [gather]
    split
    next h => exact ih h
    next => exact hn

theorem gather_eq {ds : List Nat} {n : Nat} (h : ds.foldl (fun n d => n * 10 + d) n < twoTo 64) :
    gather n ds = (ds.foldl (fun n d => n * 10 + d) n, 0) := by
  induction ds generalizing n with
  | nil => rfl
  | cons d ds ih => rw [gather, if_pos ((le_foldl_digits ds _).trans_lt h), ih h, List.foldl_cons]

def Number.InRange : Number → Prop
  | .int i => -(twoTo 63) ≤ i ∧ i < twoTo 64
  | .float _ => True

instance : (n : Number) → Decidable n.InRange
  | .int _ => inferInstanceAs (Decidable (_ ∧ _))
  | .float _ => .isTrue trivial

theorem Numeral.inRange_of_value? {m : Numeral} {n : Number} (h : m.value? = some n) :
    n.InRange := by
  have hfloat {digits : Nat} {exponent : Int}
      (h : (Double.ofScaled? m.negative digits exponent).map Number.float = some n) :
      n.InRange := by
    obtain ⟨d, -, rfl⟩ := Option.map_eq_some_iff.mp h
    trivial
  have hlt := gather_fst_lt (by decide : 0 < twoTo 64) m.whole
  unfold value? at h
  generalize gather 0 m.whole = gathered at h hlt
  obtain ⟨whole, extra⟩ := gathered
  dsimp only at h hlt
  split at h
  · split at h
    · obtain rfl := Option.some.inj h
      exact ⟨by omega, by exact_mod_cast hlt⟩
    · split at h
      next hwhole =>
        obtain rfl := Option.some.inj h
        exact ⟨by have := hwhole.2; omega, by omega⟩
      next => exact hfloat h
  · exact hfloat h

/-- An integer of 64 bits is read as it is printed. -/
theorem Number.value?_numeral_int {i : Int} (h : (Number.int i).InRange) :
    (Number.int i).numeral.value? = some (.int i) := by
  obtain ⟨hlow, hhigh⟩ := h
  have hlt : i.natAbs < twoTo 64 := by
    have hbounds : twoTo 63 < twoTo 64 := by decide
    omega
  have hdigits : gather 0 (decimalDigits i.natAbs) = (i.natAbs, 0) := by
    have hvalue := natOfDigits_decimalDigits i.natAbs
    rw [natOfDigits] at hvalue
    rw [gather_eq (hvalue.symm ▸ hlt), hvalue]
  rw [numeral, Numeral.value?, hdigits]
  dsimp only
  rw [if_pos ⟨rfl, rfl, rfl⟩]
  by_cases hi : i < 0
  · rw [decide_eq_true hi, if_neg (by decide), if_pos (by omega), Int.ofNat_natAbs_of_nonpos hi.le,
      Int.neg_neg]
  · rw [decide_eq_false hi, if_pos (by decide), Int.natAbs_of_nonneg (Int.not_lt.mp hi)]

/-! Members in order. -/

section
variable {α : Type} {k : String} {v : α} {ms : List (String × α)} {m : String × α}

def Increasing (ms : List (String × α)) : Prop := ms.Pairwise fun m m' => m.1 < m'.1

theorem mem_insert (h : m ∈ insert k v ms) : m = (k, v) ∨ m ∈ ms := by
  induction ms with
  | nil => exact .inl (List.mem_singleton.mp h)
  | cons first ms ih =>
    rw [insert] at h
    split at h
    · exact List.mem_cons.mp h
    · split at h
      · exact (List.mem_cons.mp h).imp_right (List.mem_cons_of_mem _)
      · rcases List.mem_cons.mp h with rfl | h
        · exact .inr List.mem_cons_self
        · exact (ih h).imp_right (List.mem_cons_of_mem _)

theorem Increasing.insert (h : Increasing ms) (k : String) (v : α) :
    Increasing (Json.insert k v ms) := by
  induction ms with
  | nil => exact List.pairwise_singleton ..
  | cons first ms ih =>
    obtain ⟨hfirst, hrest⟩ := List.pairwise_cons.mp h
    rw [Json.insert]
    split
    next hlt =>
      refine List.pairwise_cons.mpr ⟨fun m hm => ?_, h⟩
      rcases List.mem_cons.mp hm with rfl | hm
      · exact hlt
      · exact hlt.trans (hfirst m hm)
    next hlt =>
      split
      next heq => exact List.pairwise_cons.mpr ⟨fun m hm => heq ▸ hfirst m hm, hrest⟩
      next hne =>
        refine List.pairwise_cons.mpr ⟨fun m hm => ?_, ih hrest⟩
        rcases mem_insert hm with rfl | hm
        · exact lt_of_le_of_ne (not_lt.mp hlt) (Ne.symm hne)
        · exact hfirst m hm

theorem increasing_sorted (ms : List (String × α)) : Increasing (sorted ms) := by
  have hfold (ms acc : List (String × α)) (h : Increasing acc) :
      Increasing (ms.foldl (fun acc m => insert m.1 m.2 acc) acc) := by
    induction ms generalizing acc with
    | nil => exact h
    | cons m ms ih => exact ih _ (h.insert m.1 m.2)
  exact hfold ms [] .nil

theorem mem_of_mem_sorted (h : m ∈ sorted ms) : m ∈ ms := by
  have hfold (ms acc : List (String × α))
      (h : m ∈ ms.foldl (fun acc m => insert m.1 m.2 acc) acc) : m ∈ ms ∨ m ∈ acc := by
    induction ms generalizing acc with
    | nil => exact .inr h
    | cons first ms ih =>
      rcases ih _ h with h | h
      · exact .inl (List.mem_cons_of_mem _ h)
      · exact (mem_insert h).imp_left fun (h : m = first) => h ▸ List.mem_cons_self
  exact (hfold ms [] h).resolve_right List.not_mem_nil

theorem insert_perm (h : ∀ m ∈ ms, m.1 ≠ k) : (insert k v ms).Perm ((k, v) :: ms) := by
  induction ms with
  | nil => exact .refl _
  | cons first ms ih =>
    obtain ⟨hfirst, hrest⟩ := List.forall_mem_cons.mp h
    rw [insert]
    split
    · exact .refl _
    · rw [if_neg hfirst.symm]
      exact ((ih hrest).cons first).trans (.swap ..)

/-- No member is dropped if the keys are distinct. -/
theorem sorted_perm (h : (ms.map (·.1)).Nodup) : (sorted ms).Perm ms := by
  have hfold (ms acc : List (String × α)) (h : ((acc ++ ms).map (·.1)).Nodup) :
      (ms.foldl (fun acc m => insert m.1 m.2 acc) acc).Perm (acc ++ ms) := by
    induction ms generalizing acc with
    | nil => simp
    | cons m ms ih =>
      have hswap : (acc ++ m :: ms).Perm (m :: acc ++ ms) := List.perm_middle
      have hnot : ∀ m' ∈ acc, m'.1 ≠ m.1 := fun m' hm' heq =>
        (List.nodup_cons.mp ((hswap.map _).nodup_iff.mp h)).1
          (heq ▸ List.mem_map_of_mem (List.mem_append_left _ hm'))
      have hinsert : (insert m.1 m.2 acc ++ ms).Perm (acc ++ m :: ms) :=
        ((insert_perm hnot).append_right ms).trans hswap.symm
      exact (ih _ ((hinsert.map _).nodup_iff.mpr h)).trans hinsert
  exact hfold ms [] h

theorem insert_of_forall_lt (h : ∀ m ∈ ms, m.1 < k) : insert k v ms = ms ++ [(k, v)] := by
  induction ms with
  | nil => rfl
  | cons first ms ih =>
    obtain ⟨hfirst, hrest⟩ := List.forall_mem_cons.mp h
    rw [insert, if_neg hfirst.not_gt, if_neg hfirst.ne', ih hrest, List.cons_append]

theorem Increasing.sorted_eq (h : Increasing ms) : sorted ms = ms := by
  have hfold (ms acc : List (String × α)) (h : Increasing (acc ++ ms)) :
      ms.foldl (fun acc m => Json.insert m.1 m.2 acc) acc = acc ++ ms := by
    induction ms generalizing acc with
    | nil => exact (List.append_nil acc).symm
    | cons m ms ih =>
      have hlast : ∀ m' ∈ acc, m'.1 < m.1 := fun m' hm' =>
        (List.pairwise_append.mp h).2.2 m' hm' m List.mem_cons_self
      rw [List.foldl_cons, insert_of_forall_lt hlast, ih _ (by rwa [List.append_assoc]),
        List.append_assoc, List.singleton_append]
  exact hfold ms [] h

end

/-! Values. -/

/-- A value as it is read: at most so many containers inside each other, integers of 64 bits, and
the members of an object in order. -/
inductive Fits : Nat → Json → Prop where
  | null {depth : Nat} : Fits depth .null
  | bool {depth : Nat} (b : Bool) : Fits depth (.bool b)
  | num {depth : Nat} {n : Number} : n.InRange → Fits depth (.num n)
  | str {depth : Nat} (s : String) : Fits depth (.str s)
  | arr {depth : Nat} {vs : List Json} : (∀ v ∈ vs, Fits depth v) → Fits (depth + 1) (.arr vs)
  | obj {depth : Nat} {ms : List (String × Json)} : Increasing ms → (∀ m ∈ ms, Fits depth m.2) →
    Fits (depth + 1) (.obj ms)

mutual
theorem fits_of_ofTree? : ∀ (t : Tree) {depth : Nat} {v : Json}, ofTree? depth t = some v →
    Fits depth v
  | .null, _, _, rfl => .null
  | .bool b, _, _, rfl => .bool b
  | .num n, _, _, h => by
    obtain ⟨n', hn, rfl⟩ := Option.map_eq_some_iff.mp h
    exact .num (Numeral.inRange_of_value? hn)
  | .str s, _, _, h => by
    obtain ⟨s', -, rfl⟩ := Option.map_eq_some_iff.mp h
    exact .str s'
  | .arr ts, depth + 1, _, h => by
    obtain ⟨vs, hvs, rfl⟩ := Option.map_eq_some_iff.mp h
    exact .arr (fits_of_ofItems? ts hvs)
  | .obj ms, depth + 1, _, h => by
    obtain ⟨vs, hvs, rfl⟩ := Option.map_eq_some_iff.mp h
    exact .obj (increasing_sorted vs) fun m hm =>
      fits_of_ofMembers? ms hvs m (mem_of_mem_sorted hm)

theorem fits_of_ofItems? : ∀ (ts : List Tree) {depth : Nat} {vs : List Json},
    ofItems? depth ts = some vs → ∀ v ∈ vs, Fits depth v
  | [], _, _, rfl => nofun
  | t :: ts, depth, vs, h => by
    obtain ⟨v, hv, h⟩ := Option.bind_eq_some_iff.mp h
    obtain ⟨rest, hrest, h⟩ := Option.bind_eq_some_iff.mp h
    cases h
    exact List.forall_mem_cons.mpr ⟨fits_of_ofTree? t hv, fits_of_ofItems? ts hrest⟩

theorem fits_of_ofMembers? : ∀ (ms : List (List Piece × Tree)) {depth : Nat}
    {vs : List (String × Json)}, ofMembers? depth ms = some vs → ∀ m ∈ vs, Fits depth m.2
  | [], _, _, rfl => nofun
  | (k, t) :: ms, depth, vs, h => by
    obtain ⟨k', hk, h⟩ := Option.bind_eq_some_iff.mp h
    obtain ⟨v, hv, h⟩ := Option.bind_eq_some_iff.mp h
    obtain ⟨rest, hrest, h⟩ := Option.bind_eq_some_iff.mp h
    cases h
    exact List.forall_mem_cons.mpr ⟨fits_of_ofTree? t hv, fits_of_ofMembers? ms hrest⟩
end

inductive Contains (d : Double) : Json → Prop where
  | here : Contains d (.num (.float d))
  | item {vs : List Json} {v : Json} : v ∈ vs → Contains d v → Contains d (.arr vs)
  | member {ms : List (String × Json)} {m : String × Json} : m ∈ ms → Contains d m.2 →
    Contains d (.obj ms)

def Number.ReadsBack (n : Number) : Prop := n.numeral.value? = some n

instance (n : Number) : Decidable n.ReadsBack := inferInstanceAs (Decidable (_ = _))

theorem ofItems?_itemTrees {depth : Nat} {vs : List Json}
    (h : ∀ v ∈ vs, ofTree? depth v.tree = some v) : ofItems? depth (itemTrees vs) = some vs := by
  induction vs with
  | nil => rfl
  | cons v vs ih =>
    obtain ⟨hv, hvs⟩ := List.forall_mem_cons.mp h
    rw [itemTrees, ofItems?, hv, ih hvs]
    rfl

theorem ofMembers?_memberTrees {depth : Nat} {ms : List (String × Json)}
    (h : ∀ m ∈ ms, ofTree? depth m.2.tree = some m.2) :
    ofMembers? depth (memberTrees ms) = some ms := by
  induction ms with
  | nil => rfl
  | cons m ms ih =>
    obtain ⟨hm, hms⟩ := List.forall_mem_cons.mp h
    rw [memberTrees, ofMembers?, text?_pieces, hm, ih hms]
    rfl

/-- A value that was read is read from the tree that it is printed as. -/
theorem Fits.ofTree?_tree {depth : Nat} {v : Json} (h : Fits depth v)
    (hdoubles : ∀ d, Contains d v → (Number.float d).ReadsBack) :
    ofTree? depth v.tree = some v := by
  induction h with
  | null => rfl
  | bool b => rfl
  | @num depth n hn =>
    have hread : n.ReadsBack := by
      cases n with
      | int i => exact Number.value?_numeral_int hn
      | float d => exact hdoubles d .here
    rw [tree, ofTree?, hread]
    rfl
  | str s =>
    rw [tree, ofTree?, text?_pieces]
    rfl
  | arr _ ih =>
    rw [tree, ofTree?, ofItems?_itemTrees fun v hv => ih v hv fun d hd => hdoubles d (.item hv hd)]
    rfl
  | obj hms _ ih =>
    rw [tree, ofTree?,
      ofMembers?_memberTrees fun m hm => ih m hm fun d hd => hdoubles d (.member hm hd)]
    rw [Option.map_some, object, hms.sorted_eq]

end Switchboard.Json
