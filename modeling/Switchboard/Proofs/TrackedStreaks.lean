import Mathlib.Data.Set.Card
import Switchboard.Proofs.StoreOperations

/-! Lists keep no streak that is zero and no conversation without a streak, so that they grow with
the conversations in which a skill is asking and not with those that there ever were. -/
namespace Switchboard

namespace Store.Pending

variable {p p' : Pending} {conversation : String} {skills : Dict Nat}

/-- Each skill stands once in the table of a conversation, with a streak that is not zero. -/
structure Counts (skills : Dict Nat) : Prop where
  nodup : skills.keys.Nodup
  pos : ∀ s ∈ skills, 0 < s.2

/-- Each conversation stands once in the table of streaks, and there are skills in its own. -/
structure Tidy (p : Pending) : Prop where
  nodup : p.streaks.keys.Nodup
  nonempty : ∀ e ∈ p.streaks, e.2 ≠ []
  counts : ∀ e ∈ p.streaks, Counts e.2

theorem counts_nil : Counts [] := ⟨List.nodup_nil, nofun⟩

theorem Counts.put {count : Nat} (h : Counts skills) (hcount : 0 < count) (skill : String) :
    Counts (skills.put skill count) where
  nodup := Dict.nodup_keys_put h.nodup skill count
  pos s hs := by
    rcases Dict.mem_of_mem_put hs with rfl | hs
    · exact hcount
    · exact h.pos s hs

theorem Counts.erase (h : Counts skills) (skill : String) : Counts (skills.erase skill) where
  nodup := Dict.nodup_keys_erase h.nodup skill
  pos s hs := h.pos s ((Dict.erase_sublist skill skills).mem hs)

theorem tidy_empty : Tidy {} := ⟨List.nodup_nil, nofun, nofun⟩

theorem Tidy.of_streaks_eq (h : p.Tidy) (heq : p'.streaks = p.streaks) : p'.Tidy := by
  refine ⟨?_, ?_, ?_⟩ <;> rw [heq]
  · exact h.nodup
  · exact h.nonempty
  · exact h.counts

theorem Tidy.streaksOf (h : p.Tidy) (conversation : String) :
    Counts (p.streaksOf conversation) := by
  rw [Pending.streaksOf]
  cases hget : p.streaks.get? conversation with
  | none => exact counts_nil
  | some skills => exact h.counts _ (Dict.mem_of_get? hget)

theorem Tidy.keep (h : p.Tidy) (hskills : Counts skills) (conversation : String) :
    (p.keep conversation skills).Tidy := by
  unfold Pending.keep
  split
  next =>
    have hsub := Dict.erase_sublist conversation p.streaks
    exact ⟨Dict.nodup_keys_erase h.nodup conversation, fun e he => h.nonempty e (hsub.mem he),
      fun e he => h.counts e (hsub.mem he)⟩
  next hne =>
    have hnonempty : skills ≠ [] := fun heq => hne (List.isEmpty_iff.mpr heq)
    refine ⟨Dict.nodup_keys_put h.nodup conversation skills, fun e he => ?_, fun e he => ?_⟩
    · rcases Dict.mem_of_mem_put he with rfl | he
      · exact hnonempty
      · exact h.nonempty e he
    · rcases Dict.mem_of_mem_put he with rfl | he
      · exact hskills
      · exact h.counts e he

theorem Tidy.setStreak (h : p.Tidy) (conversation skill : String) (count : Nat) :
    (p.setStreak conversation skill count).Tidy := by
  rw [setStreak_eq_keep]
  apply h.keep
  split
  next => exact (h.streaksOf conversation).erase skill
  next hcount => exact (h.streaksOf conversation).put (Nat.pos_of_ne_zero hcount) skill

theorem Tidy.clearStreaks (h : p.Tidy) (conversation : String) :
    (p.clearStreaks conversation).Tidy :=
  -- A conversation is cleared by keeping none of its skills.
  h.keep counts_nil conversation

/-- The conversations that are kept are those with a streak. -/
theorem Tidy.mem_keys_iff (h : p.Tidy) :
    conversation ∈ p.streaks.keys ↔ ∃ skill, 0 < p.streak conversation skill := by
  constructor
  · intro hmem
    obtain ⟨skills, hskills⟩ := Dict.exists_get?_of_mem_keys hmem
    have hkept := Dict.mem_of_get? hskills
    obtain ⟨s, hs⟩ := List.exists_mem_of_ne_nil skills (h.nonempty _ hkept)
    obtain ⟨count, hcount⟩ := Dict.exists_get?_of_mem_keys (Dict.mem_keys_of_mem hs)
    have hpos : 0 < count := (h.counts _ hkept).pos _ (Dict.mem_of_get? hcount)
    refine ⟨s.1, ?_⟩
    rwa [streak, hskills, Option.getD_some, hcount, Option.getD_some]
  · rintro ⟨skill, hpos⟩
    cases hget : p.streaks.get? conversation with
    | none =>
      have hzero : p.streak conversation skill = 0 := by rw [streak, hget]; rfl
      omega
    | some skills => exact Dict.mem_keys_of_get? hget

theorem Tidy.tracked_eq (h : p.Tidy) :
    (p.tracked : ℕ∞) = {c | ∃ skill, 0 < p.streak c skill}.encard := by
  have hkeys : {c | ∃ skill, 0 < p.streak c skill} = (p.streaks.keys.toFinset : Set String) := by
    ext c
    rw [List.coe_toFinset]
    exact h.mem_keys_iff.symm
  have hlength : p.streaks.keys.length = p.tracked := List.length_map _
  rw [hkeys, Set.encard_coe_eq_coe_finsetCard, List.toFinset_card_of_nodup h.nodup, hlength]

end Store.Pending

namespace Stores

variable {pending : Store.Pending}

theorem exists_perform_lists (h : pending.Tidy) (memory : Store.Memory) (op : Op) :
    ∃ memory' pending', (lists memory pending).perform op = lists memory' pending' ∧
      pending'.Tidy := by
  cases op with
  | replace c intents => exact ⟨_, _, rfl, h.of_streaks_eq (pending.streaks_replace c intents)⟩
  | clear c => exact ⟨_, _, rfl, h.of_streaks_eq rfl⟩
  | pop c =>
    rw [perform]
    split
    · exact ⟨_, _, rfl, h⟩
    · exact ⟨_, _, rfl, h.of_streaks_eq rfl⟩
  | setStreak c skill count => exact ⟨_, _, rfl, h.setStreak c skill count⟩
  | clearStreaks c => exact ⟨_, _, rfl, h.clearStreaks c⟩
  | _ => exact ⟨_, _, rfl, h⟩

theorem exists_foldl_perform (n : Nat) (ops : List Op) :
    ∃ memory pending, ops.foldl perform (inLists n) = lists memory pending ∧ pending.Tidy ∧
      ∀ c skill, pending.streak c skill = latest (·.streak? c skill) 0 ops := by
  induction ops using List.reverseRecOn with
  | nil => exact ⟨_, _, rfl, Store.Pending.tidy_empty, fun _ _ => rfl⟩
  | append_singleton ops op ih =>
    obtain ⟨memory, pending, heq, htidy, hstreak⟩ := ih
    obtain ⟨memory', pending', heq', htidy'⟩ := exists_perform_lists htidy memory op
    refine ⟨memory', pending', ?_, htidy', fun c skill => ?_⟩
    · rw [List.foldl_append, heq]
      exact heq'
    · have hstep := streak_perform (canTake_lists memory pending op) c skill
      rw [heq'] at hstep
      change pending'.streak c skill = (op.streak? c skill).getD (pending.streak c skill) at hstep
      rw [hstep, hstreak, latest_concat]

/-- Whatever is done with new lists, a skill's streak in a conversation is what was last set, if it
was not cleared since. None that is kept is zero, no conversation is kept without one, and as many
conversations are tracked as there are with a streak. -/
theorem streaks_evicted (n : Nat) (ops : List Op) :
    ∃ memory pending, ops.foldl perform (inLists n) = lists memory pending ∧
      (∀ c skill, pending.streak c skill = latest (·.streak? c skill) 0 ops) ∧
      pending.Tidy ∧
      (pending.tracked : ℕ∞) = {c | ∃ skill, 0 < pending.streak c skill}.encard := by
  obtain ⟨memory, pending, heq, htidy, hstreak⟩ := exists_foldl_perform n ops
  exact ⟨memory, pending, heq, hstreak, htidy, htidy.tracked_eq⟩

end Stores
end Switchboard
