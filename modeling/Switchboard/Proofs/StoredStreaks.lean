import Switchboard.Proofs.Stores

/-! What the stores keep of the questions that skills ask in a row. -/
namespace Switchboard

namespace Store.Pending

def streaksOf (p : Pending) (conversation : String) : Dict Nat :=
  (p.streaks.get? conversation).getD []

/-- The skills of a conversation with their streaks replaced, and the conversation gone with them if
none are left. -/
def keep (conversation : String) (skills : Dict Nat) (p : Pending) : Pending :=
  { p with streaks :=
      if skills.isEmpty then p.streaks.erase conversation else p.streaks.put conversation skills }

/-- A streak that is set, one of several that is taken back and the last one: all are kept alike. -/
theorem setStreak_eq_keep (p : Pending) (conversation skill : String) (count : Nat) :
    p.setStreak conversation skill count =
      p.keep conversation (if count = 0 then (p.streaksOf conversation).erase skill
        else (p.streaksOf conversation).put skill count) := by
  unfold setStreak streaksOf
  cases hget : p.streaks.get? conversation with
  | none =>
    by_cases hcount : count = 0
    · have hout : conversation ∉ p.streaks.keys := fun hmem => by
        obtain ⟨skills, hskills⟩ := Dict.exists_get?_of_mem_keys hmem
        rw [hget] at hskills
        cases hskills
      have herase : p.keep conversation [] = p := by
        change { p with streaks := p.streaks.erase conversation } = p
        rw [Dict.erase_eq_self hout]
      simp only [if_pos hcount]
      exact herase.symm
    · simp only [if_neg hcount]
      rfl
  | some skills =>
    rw [Option.getD_some]
    dsimp only
    generalize (if count = 0 then _ else _ : Dict Nat) = left
    rw [keep]
    split <;> rfl

theorem streaksOf_keep (p : Pending) (conversation : String) (skills : Dict Nat) :
    (p.keep conversation skills).streaksOf conversation = skills := by
  unfold keep streaksOf
  dsimp only
  split
  next hempty => rw [Dict.get?_erase_self, List.isEmpty_iff.mp hempty, Option.getD_none]
  next => rw [Dict.get?_put_self, Option.getD_some]

theorem streaksOf_keep_of_ne {conversation conversation' : String}
    (h : conversation' ≠ conversation) (p : Pending) (skills : Dict Nat) :
    (p.keep conversation skills).streaksOf conversation' = p.streaksOf conversation' := by
  unfold keep streaksOf
  dsimp only
  split
  · rw [Dict.get?_erase_of_ne h]
  · rw [Dict.get?_put_of_ne h]

theorem streaksOf_setStreak (p : Pending) (conversation skill : String) (count : Nat) :
    (p.setStreak conversation skill count).streaksOf conversation =
      if count = 0 then (p.streaksOf conversation).erase skill
      else (p.streaksOf conversation).put skill count := by
  rw [setStreak_eq_keep, streaksOf_keep]

theorem streaksOf_setStreak_of_ne {conversation conversation' : String}
    (h : conversation' ≠ conversation) (p : Pending) (skill : String) (count : Nat) :
    (p.setStreak conversation skill count).streaksOf conversation' = p.streaksOf conversation' := by
  rw [setStreak_eq_keep, streaksOf_keep_of_ne h]

theorem streak_setStreak_self (p : Pending) (conversation skill : String) (count : Nat) :
    (p.setStreak conversation skill count).streak conversation skill = count := by
  change (((p.setStreak conversation skill count).streaksOf conversation).get? skill).getD 0 = count
  rw [streaksOf_setStreak]
  split
  next hzero => rw [Dict.get?_erase_self, hzero, Option.getD_none]
  next => rw [Dict.get?_put_self, Option.getD_some]

theorem streak_setStreak_of_ne {conversation conversation' skill skill' : String}
    (h : ¬(conversation' = conversation ∧ skill' = skill)) (p : Pending) (count : Nat) :
    (p.setStreak conversation skill count).streak conversation' skill' =
      p.streak conversation' skill' := by
  change (((p.setStreak conversation skill count).streaksOf conversation').get? skill').getD 0 = _
  by_cases hc : conversation' = conversation
  · have hskill : skill' ≠ skill := not_and.mp h hc
    rw [hc, streaksOf_setStreak]
    split
    next => rw [Dict.get?_erase_of_ne hskill]; rfl
    next => rw [Dict.get?_put_of_ne hskill]; rfl
  · rw [streaksOf_setStreak_of_ne hc]
    rfl

theorem streak_clearStreaks (p : Pending) (conversation skill : String) :
    (p.clearStreaks conversation).streak conversation skill = 0 := by
  rw [streak, clearStreaks, Dict.get?_erase_self]
  rfl

theorem streak_clearStreaks_of_ne {conversation conversation' : String}
    (h : conversation' ≠ conversation) (p : Pending) (skill : String) :
    (p.clearStreaks conversation).streak conversation' skill = p.streak conversation' skill := by
  rw [streak, clearStreaks, Dict.get?_erase_of_ne h]
  rfl

end Store.Pending

/-- A signed column keeps a count that leaves its sign alone. -/
theorem Store.signedColumn_of_lt {n : Nat} (h : n < twoTo 63) : signedColumn n = n := by
  have hwidth : twoTo 64 = 2 * twoTo 63 := by decide
  rw [signedColumn, hwidth]
  exact Int.bmod_eq_of_le_mul_two (by omega) (by omega)

namespace Store.Rows

variable {conversation conversation' skill skill' : String}

theorem find?_dropStreak_self (rows : List StreakRow) :
    (dropStreak conversation skill rows).find?
      (fun s => s.conversation = conversation && s.skill = skill) = none := by
  rw [dropStreak, List.find?_filter]
  refine List.find?_eq_none.mpr fun s _ => ?_
  by_cases hs : s.conversation = conversation ∧ s.skill = skill
  · simp [hs]
  · simpa using fun _ => not_and.mp hs

theorem find?_dropStreak_of_ne (h : ¬(conversation' = conversation ∧ skill' = skill))
    (rows : List StreakRow) :
    (dropStreak conversation skill rows).find?
      (fun s => s.conversation = conversation' && s.skill = skill') =
      rows.find? fun s => s.conversation = conversation' && s.skill = skill' := by
  rw [dropStreak, List.find?_filter]
  congr
  funext s
  by_cases hs : s.conversation = conversation' ∧ s.skill = skill'
  · simpa [hs] using Classical.not_and_iff_not_or_not.mp h
  · have hfalse : (decide (s.conversation = conversation') && decide (s.skill = skill')) = false :=
      by simpa using not_and.mp hs
    simp [hfalse]

theorem streak_setStreak_self {count : Nat} (h : count < twoTo 63) (r : Rows) :
    (r.setStreak conversation skill count).streak conversation skill = count := by
  unfold setStreak streak
  dsimp only
  split
  next s hs =>
    split at hs
    · rw [find?_dropStreak_self] at hs
      cases hs
    · rw [List.find?_append, find?_dropStreak_self] at hs
      have hrow : s = ⟨conversation, skill, signedColumn count⟩ := by simpa using hs.symm
      rw [hrow, signedColumn_of_lt h]
      exact Int.toNat_natCast count
  next hs =>
    split at hs
    next hzero => exact hzero.symm
    next =>
      rw [List.find?_append, find?_dropStreak_self] at hs
      simp at hs

theorem streak_setStreak_of_ne (h : ¬(conversation' = conversation ∧ skill' = skill)) (r : Rows)
    (count : Nat) :
    (r.setStreak conversation skill count).streak conversation' skill' =
      r.streak conversation' skill' := by
  have hnew : ([⟨conversation, skill, signedColumn count⟩] : List StreakRow).find?
      (fun s => s.conversation = conversation' && s.skill = skill') = none := by
    have hother : conversation = conversation' → ¬ skill = skill' :=
      fun hc hskill => h ⟨hc.symm, hskill.symm⟩
    simpa using hother
  have hrows : (r.setStreak conversation skill count).streaks.find?
      (fun s => s.conversation = conversation' && s.skill = skill') =
      r.streaks.find? fun s => s.conversation = conversation' && s.skill = skill' := by
    unfold setStreak
    dsimp only
    split
    · exact find?_dropStreak_of_ne h r.streaks
    · rw [List.find?_append, find?_dropStreak_of_ne h, hnew, Option.or_none]
  rw [streak, streak, hrows]

theorem streak_clearStreaks (r : Rows) :
    (r.clearStreaks conversation).streak conversation skill = 0 := by
  have hnone : (r.clearStreaks conversation).streaks.find?
      (fun s => s.conversation = conversation && s.skill = skill) = none := by
    refine List.find?_eq_none.mpr fun s hs => ?_
    have hother := (List.mem_filter.mp hs).2
    simp at hother
    simp [hother]
  rw [streak, hnone]

theorem streak_clearStreaks_of_ne (h : conversation' ≠ conversation) (r : Rows) :
    (r.clearStreaks conversation).streak conversation' skill = r.streak conversation' skill := by
  have hrows : (r.clearStreaks conversation).streaks.find?
      (fun s => s.conversation = conversation' && s.skill = skill) =
      r.streaks.find? fun s => s.conversation = conversation' && s.skill = skill := by
    rw [clearStreaks, List.find?_filter]
    congr
    funext s
    by_cases hs : s.conversation = conversation'
    · simp [hs, h]
    · simp [hs]
  rw [streak, streak, hrows]

end Store.Rows

def Request.KeepsStreaks : Request → Prop
  | .setAskStreak .. | .clearAskStreaks _ => False
  | _ => True

namespace Stores

variable {s s' : Stores} {t : Trace} {conversation conversation' skill skill' : String}
  {count : Nat}

/-- The stores can keep a count: tables do so in signed columns. -/
def CanKeep (count : Nat) : Stores → Prop
  | lists .. => True
  | tables _ => count < twoTo 63

theorem CanKeep.mono {count' : Nat} (h : s.CanKeep count') (hle : count ≤ count') :
    s.CanKeep count := by
  cases s with
  | lists => trivial
  | tables => exact Nat.lt_of_le_of_lt hle h

theorem canKeep_after (r : Request) : (s.after r).CanKeep count ↔ s.CanKeep count := by
  cases s <;> cases r <;> rfl

theorem canKeep_of_serve (h : Serve s t s') : s'.CanKeep count ↔ s.CanKeep count := by
  induction h with
  | nil => exact Iff.rfl
  | cons _ _ ih => exact ih.trans (canKeep_after _)

theorem streak_setStreak_self (h : s.CanKeep count) :
    (s.setStreak conversation skill count).streak conversation skill = count := by
  cases s with
  | lists _ pending => exact pending.streak_setStreak_self ..
  | tables rows => exact rows.streak_setStreak_self h

theorem streak_setStreak_of_ne (h : ¬(conversation' = conversation ∧ skill' = skill)) (s : Stores)
    (count : Nat) :
    (s.setStreak conversation skill count).streak conversation' skill' =
      s.streak conversation' skill' := by
  cases s with
  | lists _ pending => exact pending.streak_setStreak_of_ne h count
  | tables rows => exact rows.streak_setStreak_of_ne h count

theorem streak_clearStreaks (s : Stores) :
    (s.clearStreaks conversation).streak conversation skill = 0 := by
  cases s with
  | lists _ pending => exact pending.streak_clearStreaks ..
  | tables rows => exact rows.streak_clearStreaks

theorem streak_clearStreaks_of_ne (h : conversation' ≠ conversation) (s : Stores) :
    (s.clearStreaks conversation).streak conversation' skill = s.streak conversation' skill := by
  cases s with
  | lists _ pending => exact pending.streak_clearStreaks_of_ne h skill
  | tables rows => exact rows.streak_clearStreaks_of_ne h

theorem streak_after {r : Request} (h : r.KeepsStreaks) (s : Stores) :
    (s.after r).streak conversation skill = s.streak conversation skill := by
  cases r with
  | setAskStreak | clearAskStreaks => exact absurd h id
  | replacePending c intents =>
    cases s with
    | lists memory pending =>
      have hstreaks := pending.streaks_replace c intents
      change (pending.replace c intents).streak conversation skill = _
      rw [Store.Pending.streak, hstreaks]
      rfl
    | tables rows =>
      obtain ⟨intents', last, hrows⟩ := Store.Rows.exists_replaceIntents c intents rows
      change (rows.replaceIntents c intents).streak conversation skill = _
      rw [hrows]
      rfl
  | appendMemory | clearPending => cases s <;> rfl
  | _ => rfl

theorem streak_of_serve (h : Serve s t s') (hk : ∀ x ∈ t, x.1.KeepsStreaks) :
    s'.streak conversation skill = s.streak conversation skill := by
  induction h with
  | nil => rfl
  | cons _ _ ih =>
    obtain ⟨hx, hk⟩ := List.forall_mem_cons.mp hk
    rw [ih hk, streak_after hx]

end Stores
end Switchboard
