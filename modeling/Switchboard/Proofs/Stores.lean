import Switchboard.Proofs.Listener
import Switchboard.Store.Basic

/-! What the stores answer, and what a dialogue leaves in them. -/
namespace Switchboard

namespace Store.Rows

theorem foldl_addIntent (conversation : String) (intents : List Intent) (r : Rows) :
    ∃ rows, (intents.foldl (addIntent conversation) r).intents = r.intents ++ rows ∧
      rows.map (·.value) = intents ∧ (∀ x ∈ rows, x.conversation = conversation) ∧
      (∀ x ∈ rows, r.lastIntent < x.id) ∧ rows.Pairwise (·.id ≤ ·.id) := by
  induction intents generalizing r with
  | nil => exact ⟨[], (List.append_nil _).symm, rfl, nofun, nofun, .nil⟩
  | cons i rest ih =>
    obtain ⟨rows, hrows, hvalues, hconv, hids, hsorted⟩ := ih (r.addIntent conversation i)
    refine ⟨⟨r.lastIntent + 1, conversation, i⟩ :: rows, ?_, ?_, ?_, ?_, ?_⟩
    · rw [List.foldl_cons, hrows, addIntent, List.append_assoc]
      rfl
    · rw [List.map_cons, hvalues]
    · exact List.forall_mem_cons.mpr ⟨rfl, hconv⟩
    · refine List.forall_mem_cons.mpr ⟨Nat.lt_succ_self _, fun x hx => ?_⟩
      exact Nat.lt_trans (Nat.lt_succ_self _) (hids x hx)
    · exact .cons (fun x hx => Nat.le_of_lt (hids x hx)) hsorted

theorem filter_clearIntents (r : Rows) (conversation : String) :
    (r.clearIntents conversation).intents.filter (·.conversation = conversation) = [] := by
  simp [clearIntents]

@[simp] theorem getIntents_clearIntents (r : Rows) (conversation : String) :
    (r.clearIntents conversation).getIntents conversation = [] := by
  rw [getIntents, valuesOf, filter_clearIntents, List.mergeSort_nil, List.map_nil]

@[simp] theorem getIntents_replaceIntents (r : Rows) (conversation : String)
    (intents : List Intent) :
    (r.replaceIntents conversation intents).getIntents conversation = intents := by
  obtain ⟨rows, hrows, hvalues, hconv, -, hsorted⟩ :=
    foldl_addIntent conversation intents (r.clearIntents conversation)
  have hnew : rows.filter (·.conversation = conversation) = rows := by simpa using hconv
  have hle : rows.Pairwise fun a b => decide (a.id ≤ b.id) = true :=
    hsorted.imp fun h => decide_eq_true h
  rw [getIntents, replaceIntents, hrows, valuesOf, List.filter_append, filter_clearIntents, hnew,
    List.nil_append, List.mergeSort_of_pairwise hle, hvalues]

theorem getIntents_clearIntents_of_ne {conversation conversation' : String}
    (h : conversation' ≠ conversation) (r : Rows) :
    (r.clearIntents conversation).getIntents conversation' = r.getIntents conversation' := by
  have hrows : (r.clearIntents conversation).intents.filter (·.conversation = conversation') =
      r.intents.filter (·.conversation = conversation') := by
    rw [clearIntents, List.filter_filter]
    refine List.filter_congr fun x _ => ?_
    by_cases hx : x.conversation = conversation'
    · simp [hx, h]
    · simp [hx]
  rw [getIntents, valuesOf, hrows]
  rfl

theorem getIntents_replaceIntents_of_ne {conversation conversation' : String}
    (h : conversation' ≠ conversation) (intents : List Intent) (r : Rows) :
    (r.replaceIntents conversation intents).getIntents conversation' =
      r.getIntents conversation' := by
  obtain ⟨rows, hrows, -, hconv, -⟩ :=
    foldl_addIntent conversation intents (r.clearIntents conversation)
  have hnew : rows.filter (·.conversation = conversation') = [] := by
    refine List.filter_eq_nil_iff.mpr fun x hx => ?_
    simpa [hconv x hx] using h.symm
  rw [← getIntents_clearIntents_of_ne h r, getIntents, replaceIntents, hrows, valuesOf,
    List.filter_append, hnew, List.append_nil]
  rfl

theorem exists_replaceIntents (conversation : String) (intents : List Intent) (r : Rows) :
    ∃ rows last, r.replaceIntents conversation intents =
      { r with intents := rows, lastIntent := last } := by
  refine List.foldlRecOn (motive := fun (s : Rows) => ∃ rows last,
    s = { r with intents := rows, lastIntent := last }) intents _ ⟨_, _, rfl⟩ ?_
  rintro - ⟨rows, last, rfl⟩ i -
  exact ⟨_, _, rfl⟩

end Store.Rows

namespace Store.Pending

@[simp] theorem get_clear (p : Pending) (conversation : String) :
    (p.clear conversation).get conversation = [] := by
  simp [get, clear, Dict.get?_erase_self]

@[simp] theorem get_replace (p : Pending) (conversation : String) (intents : List Intent) :
    (p.replace conversation intents).get conversation = intents := by
  unfold replace
  split
  next h => rw [get_clear, List.isEmpty_iff.mp h]
  next => simp [get, Dict.get?_put_self]

theorem get_clear_of_ne {conversation conversation' : String} (h : conversation' ≠ conversation)
    (p : Pending) : (p.clear conversation).get conversation' = p.get conversation' := by
  rw [get, clear, Dict.get?_erase_of_ne h]
  rfl

theorem get_replace_of_ne {conversation conversation' : String} (h : conversation' ≠ conversation)
    (intents : List Intent) (p : Pending) :
    (p.replace conversation intents).get conversation' = p.get conversation' := by
  unfold replace
  split
  · exact get_clear_of_ne h p
  · rw [get, Dict.get?_put_of_ne h]
    rfl

theorem streaks_replace (p : Pending) (conversation : String) (intents : List Intent) :
    (p.replace conversation intents).streaks = p.streaks := by
  unfold replace
  split <;> rfl

theorem intents_setStreak (p : Pending) (conversation skill : String) (count : Nat) :
    (p.setStreak conversation skill count).intents = p.intents := by
  unfold setStreak
  split
  · split <;> rfl
  · dsimp only
    split <;> split <;> rfl

end Store.Pending

def Request.KeepsPending : Request → Prop
  | .replacePending .. | .clearPending _ => False
  | _ => True

namespace Stores

@[simp] theorem getIntents_clearIntents (s : Stores) (conversation : String) :
    (s.clearIntents conversation).getIntents conversation = [] := by
  cases s <;> simp [clearIntents, getIntents]

@[simp] theorem getIntents_replaceIntents (s : Stores) (conversation : String)
    (intents : List Intent) :
    (s.replaceIntents conversation intents).getIntents conversation = intents := by
  cases s <;> simp [replaceIntents, getIntents]

theorem getIntents_clearIntents_of_ne {conversation conversation' : String}
    (h : conversation' ≠ conversation) (s : Stores) :
    (s.clearIntents conversation).getIntents conversation' = s.getIntents conversation' := by
  cases s with
  | lists _ pending => exact Store.Pending.get_clear_of_ne h pending
  | tables rows => exact Store.Rows.getIntents_clearIntents_of_ne h rows

theorem getIntents_replaceIntents_of_ne {conversation conversation' : String}
    (h : conversation' ≠ conversation) (intents : List Intent) (s : Stores) :
    (s.replaceIntents conversation intents).getIntents conversation' =
      s.getIntents conversation' := by
  cases s with
  | lists _ pending => exact Store.Pending.get_replace_of_ne h intents pending
  | tables rows => exact Store.Rows.getIntents_replaceIntents_of_ne h intents rows

/-- What a request changes in the stores if it does not fail. -/
def after (s : Stores) : Request → Stores
  | .appendMemory c m => s.appendMessage c m
  | .replacePending c intents => s.replaceIntents c intents
  | .clearPending c => s.clearIntents c
  | .setAskStreak c skill count => s.setStreak c skill count
  | .clearAskStreaks c => s.clearStreaks c
  | _ => s

def Answers (s : Stores) : Exchange → Prop
  | ⟨.readMemory c, answer⟩ => answer = .ok (s.readMessages c)
  | ⟨.getPending c, answer⟩ => answer = .ok (s.getIntents c)
  | ⟨.askStreak c skill, answer⟩ => answer = .ok (s.streak c skill)
  | ⟨.appendMemory .., answer⟩ | ⟨.replacePending .., answer⟩ | ⟨.clearPending _, answer⟩
  | ⟨.setAskStreak .., answer⟩ | ⟨.clearAskStreaks _, answer⟩ => answer = .ok ()
  | _ => True

theorem getIntents_after {r : Request} (h : r.KeepsPending) (s : Stores) (conversation : String) :
    (s.after r).getIntents conversation = s.getIntents conversation := by
  cases r with
  | replacePending | clearPending => exact absurd h id
  | setAskStreak c skill count =>
    cases s with
    | lists memory pending =>
      change ((pending.setStreak c skill count).intents.get? conversation).getD [] = _
      rw [Store.Pending.intents_setStreak]
      rfl
    | tables rows => rfl
  | appendMemory | clearAskStreaks => cases s <;> rfl
  | _ => rfl

/-- The stores answer a dialogue from its beginning to its end. -/
inductive Serve : Stores → Trace → Stores → Prop where
  | nil (s : Stores) : Serve s [] s
  | cons {s s' : Stores} {x : Exchange} {t : Trace} : s.Answers x → Serve (s.after x.1) t s' →
    Serve s (x :: t) s'

variable {s s' : Stores} {t t' : Trace}

@[simp] theorem serve_nil : Serve s [] s' ↔ s' = s :=
  ⟨fun h => by cases h; rfl, fun h => h ▸ .nil s⟩

@[simp] theorem serve_cons {x : Exchange} :
    Serve s (x :: t) s' ↔ s.Answers x ∧ Serve (s.after x.1) t s' :=
  ⟨fun h => by cases h with | cons hx h => exact ⟨hx, h⟩, fun h => .cons h.1 h.2⟩

theorem serve_append : Serve s (t ++ t') s' ↔ ∃ s₁, Serve s t s₁ ∧ Serve s₁ t' s' := by
  induction t generalizing s with
  | nil => simp
  | cons x t ih => simp [ih, and_assoc]

theorem getIntents_of_serve (h : Serve s t s') (hk : ∀ x ∈ t, x.1.KeepsPending)
    (conversation : String) : s'.getIntents conversation = s.getIntents conversation := by
  induction h with
  | nil => rfl
  | cons _ _ ih =>
    obtain ⟨hx, hk⟩ := List.forall_mem_cons.mp hk
    rw [ih hk, getIntents_after hx]

end Stores

def Exchange.StoreWorks : Exchange → Prop
  | ⟨.readMemory _, answer⟩ => ∃ messages, answer = .ok messages
  | ⟨.getPending _, answer⟩ => ∃ intents, answer = .ok intents
  | ⟨.askStreak .., answer⟩ => ∃ count, answer = .ok count
  | ⟨.appendMemory .., answer⟩ | ⟨.replacePending .., answer⟩ | ⟨.clearPending _, answer⟩
  | ⟨.setAskStreak .., answer⟩ | ⟨.clearAskStreaks _, answer⟩ => answer = .ok ()
  | _ => True

def Trace.StoresWork (t : Trace) : Prop := ∀ x ∈ t, x.StoreWorks

namespace Trace

@[simp] theorem storesWork_append {t t' : Trace} :
    StoresWork (t ++ t') ↔ StoresWork t ∧ StoresWork t' := List.forall_mem_append

@[simp] theorem storesWork_cons {x : Exchange} {t : Trace} :
    StoresWork (x :: t) ↔ x.StoreWorks ∧ StoresWork t := List.forall_mem_cons

end Trace

/-- The listener stays, the prompts come from the catalog and no store fails. -/
structure Trace.Undisturbed (c : Catalog) (t : Trace) : Prop where
  attended : t.Attended
  prompted : t.Prompted c
  storesWork : t.StoresWork

namespace Trace

variable {c : Catalog} {t t' : Trace} {x : Exchange}

theorem undisturbed_append :
    Undisturbed c (t ++ t') ↔ Undisturbed c t ∧ Undisturbed c t' := by
  constructor
  · rintro ⟨ha, hc, hs⟩
    obtain ⟨ha, ha'⟩ := attended_append.mp ha
    obtain ⟨hc, hc'⟩ := prompted_append.mp hc
    obtain ⟨hs, hs'⟩ := storesWork_append.mp hs
    exact ⟨⟨ha, hc, hs⟩, ha', hc', hs'⟩
  · rintro ⟨⟨ha, hc, hs⟩, ha', hc', hs'⟩
    exact ⟨attended_append.mpr ⟨ha, ha'⟩, prompted_append.mpr ⟨hc, hc'⟩,
      storesWork_append.mpr ⟨hs, hs'⟩⟩

theorem Undisturbed.head (h : Undisturbed c (x :: t)) : x.StoreWorks :=
  (storesWork_cons.mp h.storesWork).1

theorem Undisturbed.tail (h : Undisturbed c (x :: t)) : t.Undisturbed c :=
  ⟨(attended_cons.mp h.attended).2, (prompted_cons.mp h.prompted).2,
    (storesWork_cons.mp h.storesWork).2⟩

theorem Undisturbed.of_part (ht : Undisturbed c t') (h : t <:+: t') : t.Undisturbed c := by
  obtain ⟨before, after, rfl⟩ := h
  exact (undisturbed_append.mp (undisturbed_append.mp ht).1).2

end Trace

theorem Stores.storesWork_of_serve {s s' : Stores} {t : Trace} (h : Serve s t s') :
    t.StoresWork := by
  induction h with
  | nil => exact List.forall_mem_nil _
  | @cons s s' x t hx _ ih =>
    refine Trace.storesWork_cons.mpr ⟨?_, ih⟩
    obtain ⟨r, answer⟩ := x
    cases r with
    | readMemory | getPending | askStreak => exact ⟨_, hx⟩
    | appendMemory | replacePending | clearPending | setAskStreak | clearAskStreaks => exact hx
    | _ => trivial

end Switchboard
