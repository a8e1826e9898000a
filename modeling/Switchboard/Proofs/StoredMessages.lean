import Switchboard.Proofs.StoredStreaks

/-! What the stores remember of what is said in a conversation. -/
namespace Switchboard

namespace Store.Memory

variable {α : Type}

theorem lastOf_of_length_le {n : Nat} {xs : List α} (h : xs.length ≤ n) : lastOf n xs = xs := by
  rw [lastOf, Nat.sub_eq_zero_of_le h, List.drop_zero]

theorem length_lastOf_le (n : Nat) (xs : List α) : (lastOf n xs).length ≤ xs.length := by
  rw [lastOf, List.length_drop]
  exact Nat.sub_le ..

/-- What was forgotten before makes no difference to what is kept after more is added. -/
theorem lastOf_lastOf_append (n : Nat) (xs ys : List α) :
    lastOf n (lastOf n xs ++ ys) = lastOf n (xs ++ ys) := by
  have hdrop : lastOf n xs ++ ys = (xs ++ ys).drop (xs.length - n) := by
    rw [List.drop_append_of_le_length (Nat.sub_le ..)]
    rfl
  rw [hdrop]
  unfold lastOf
  rw [List.drop_drop, List.length_drop, List.length_append]
  congr 1
  omega

end Store.Memory

namespace Store.Rows
open Memory (lastOf)

variable {α : Type} {conversation conversation' : String} {r : Rows} {m : Message}

/-- Items whose numbers increase are known by them. -/
theorem filter_mem_drop {f : α → Nat} {xs : List α} (h : xs.Pairwise (f · < f ·)) (k : Nat) :
    xs.filter (fun x => ((xs.drop k).map f).contains (f x)) = xs.drop k := by
  induction xs generalizing k with
  | nil => rw [List.drop_nil, List.filter_nil]
  | cons x xs ih =>
    obtain ⟨hx, hxs⟩ := List.pairwise_cons.mp h
    cases k with
    | zero =>
      refine List.filter_eq_self.mpr fun y hy => ?_
      exact List.contains_iff_mem.mpr (List.mem_map_of_mem hy)
    | succ k =>
      have hout : ((xs.drop k).map f).contains (f x) = false := by
        refine Bool.eq_false_iff.mpr fun hmem => ?_
        obtain ⟨y, hy, heq⟩ := List.mem_map.mp (List.contains_iff_mem.mp hmem)
        exact absurd heq (Nat.ne_of_gt (hx y (List.mem_of_mem_drop hy)))
      rw [List.drop_succ_cons, List.filter_cons_of_neg (by rw [hout]; exact Bool.false_ne_true)]
      exact ih hxs k

/-- Messages are kept in the order of their numbers, all of which have been given out. -/
structure Ordered (r : Rows) : Prop where
  increasing : r.messages.Pairwise (·.id < ·.id)
  given : ∀ x ∈ r.messages, x.id ≤ r.lastMessage

def rowsOf (conversation : String) (rows : List (Numbered α)) : List (Numbered α) :=
  rows.filter (·.conversation = conversation)

theorem readMessages_of_ordered (h : r.Ordered) :
    r.readMessages conversation = (rowsOf conversation r.messages).map (·.value.message) := by
  have hle : (rowsOf conversation r.messages).Pairwise fun a b => decide (a.id ≤ b.id) = true :=
    (h.increasing.filter _).imp fun h => decide_eq_true (Nat.le_of_lt h)
  rw [readMessages, valuesOf, ← rowsOf, List.mergeSort_of_pairwise hle, List.map_map]
  rfl

theorem mergeSort_ge_of_pairwise {ids : List Nat} (h : ids.Pairwise (· < ·)) :
    ids.mergeSort (· ≥ ·) = ids.reverse := by
  have hreverse : ids.reverse.Pairwise fun a b => decide (a ≥ b) = true :=
    List.pairwise_reverse.mpr (h.imp fun hlt => decide_eq_true (Nat.le_of_lt hlt))
  have hsorted : (ids.mergeSort (· ≥ ·)).Pairwise fun a b => decide (a ≥ b) = true :=
    List.pairwise_mergeSort (by simp only [decide_eq_true_eq]; omega)
      (by simp only [Bool.or_eq_true, decide_eq_true_eq]; omega) ids
  refine List.Perm.eq_of_pairwise (fun a b _ _ hab hba => ?_) hsorted hreverse
    ((List.mergeSort_perm ..).trans (List.reverse_perm ids).symm)
  exact Nat.le_antisymm (of_decide_eq_true hba) (of_decide_eq_true hab)

theorem newest_of_pairwise {rows : List (Numbered α)} (h : rows.Pairwise (·.id < ·.id))
    (limit : Int) :
    newest limit conversation rows =
      ((if limit < 0 then rowsOf conversation rows
        else lastOf limit.toNat (rowsOf conversation rows)).map (·.id)).reverse := by
  have hids : ((rowsOf conversation rows).map (·.id)).Pairwise (· < ·) :=
    List.pairwise_map.mpr (h.filter _)
  unfold newest
  dsimp only
  rw [← rowsOf, mergeSort_ge_of_pairwise hids]
  split
  · rfl
  · rw [List.take_reverse, lastOf, List.map_drop, List.length_map]

/-- The rows can keep so many messages of a conversation, or they forget the oldest in time: a limit
that is negative in its signed column is none. -/
def CanHold (count : Nat) (r : Rows) : Prop :=
  r.maxMessages < twoTo 63 ∨ (r.maxMessages < twoTo 64 ∧ count ≤ r.maxMessages)

theorem signedColumn_neg {n : Nat} (hle : twoTo 63 ≤ n) (hlt : n < twoTo 64) :
    signedColumn n < 0 := by
  have hwidth : twoTo 64 = 2 * twoTo 63 := by decide
  have hmod : (n : Int) % twoTo 64 = n := Int.emod_eq_of_lt (Int.natCast_nonneg n) (by omega)
  rw [signedColumn, Int.bmod_def, hmod]
  split <;> omega

theorem limit_of_canHold {count : Nat} (h : r.CanHold count) {xs : List α}
    (hxs : xs.length ≤ count) :
    (if signedColumn r.maxMessages < 0 then xs
      else lastOf (signedColumn r.maxMessages).toNat xs) = lastOf r.maxMessages xs := by
  rcases Nat.lt_or_ge r.maxMessages (twoTo 63) with hlt | hge
  · rw [signedColumn_of_lt hlt, if_neg (Int.not_lt.mpr (Int.natCast_nonneg _)), Int.toNat_natCast]
  · obtain ⟨hlt, hcount⟩ := h.resolve_left (Nat.not_lt_of_le hge)
    rw [if_pos (signedColumn_neg hge hlt), Memory.lastOf_of_length_le (Nat.le_trans hxs hcount)]

def added (conversation : String) (m : Message) (r : Rows) : List (Numbered MessageRow) :=
  r.messages ++ [⟨r.lastMessage + 1, conversation, .ofMessage m⟩]

theorem messages_appendMessage : (r.appendMessage conversation m).messages =
    (r.added conversation m).filter fun x => x.conversation ≠ conversation ||
      (newest (signedColumn r.maxMessages) conversation (r.added conversation m)).contains x.id :=
  rfl

theorem Ordered.added (h : r.Ordered) : (r.added conversation m).Pairwise (·.id < ·.id) := by
  refine List.pairwise_append.mpr ⟨h.increasing, List.pairwise_singleton _ _, fun x hx y hy => ?_⟩
  cases List.mem_singleton.mp hy
  exact Nat.lt_succ_of_le (h.given x hx)

theorem Ordered.appendMessage (h : r.Ordered) : (r.appendMessage conversation m).Ordered := by
  refine ⟨h.added.filter _, fun x hx => ?_⟩
  rcases List.mem_append.mp (List.mem_filter.mp hx).1 with hold | hnew
  · exact Nat.le_succ_of_le (h.given x hold)
  · cases List.mem_singleton.mp hnew
    exact Nat.le_refl _

theorem rowsOf_added_self : rowsOf conversation (r.added conversation m) =
    rowsOf conversation r.messages ++ [⟨r.lastMessage + 1, conversation, .ofMessage m⟩] := by
  rw [rowsOf, added, List.filter_append, ← rowsOf]
  simp

theorem rowsOf_added_of_ne (hne : conversation' ≠ conversation) :
    rowsOf conversation' (r.added conversation m) = rowsOf conversation' r.messages := by
  rw [rowsOf, added, List.filter_append, ← rowsOf]
  simp [hne.symm]

/-- Of the conversation of a new message the last rows are left. -/
theorem rowsOf_appendMessage_self (h : r.Ordered)
    (hhold : r.CanHold ((rowsOf conversation r.messages).length + 1)) :
    rowsOf conversation (r.appendMessage conversation m).messages =
      lastOf r.maxMessages (rowsOf conversation (r.added conversation m)) := by
  have hlength : (rowsOf conversation (r.added conversation m)).length ≤
      (rowsOf conversation r.messages).length + 1 := by
    rw [rowsOf_added_self, List.length_append]
    exact Nat.le_refl _
  have hkept : newest (signedColumn r.maxMessages) conversation (r.added conversation m) =
      ((lastOf r.maxMessages (rowsOf conversation (r.added conversation m))).map
        (·.id)).reverse := by
    rw [newest_of_pairwise h.added, limit_of_canHold hhold hlength]
  -- The rows are deleted by number, so that the last are left has to be told by their numbers.
  have hrows : rowsOf conversation (r.appendMessage conversation m).messages =
      (rowsOf conversation (r.added conversation m)).filter fun x =>
        ((lastOf r.maxMessages (rowsOf conversation (r.added conversation m))).map
          (·.id)).contains x.id := by
    rw [messages_appendMessage, hkept, rowsOf, rowsOf, List.filter_filter, List.filter_filter]
    refine List.filter_congr fun x _ => ?_
    by_cases hx : x.conversation = conversation <;> simp [hx]
  rw [hrows]
  exact filter_mem_drop (h.added.filter _) _

theorem rowsOf_appendMessage_of_ne (hne : conversation' ≠ conversation) :
    rowsOf conversation' (r.appendMessage conversation m).messages =
      rowsOf conversation' r.messages := by
  rw [← rowsOf_added_of_ne (r := r) (m := m) hne, messages_appendMessage, rowsOf, rowsOf,
    List.filter_filter]
  refine List.filter_congr fun x _ => ?_
  by_cases hx : x.conversation = conversation'
  · simp [hx, hne]
  · simp [hx]

theorem readMessages_appendMessage_self (h : r.Ordered)
    (hhold : r.CanHold ((r.readMessages conversation).length + 1)) :
    (r.appendMessage conversation m).readMessages conversation =
      lastOf r.maxMessages (r.readMessages conversation ++ [m]) := by
  rw [readMessages_of_ordered h, List.length_map] at hhold
  rw [readMessages_of_ordered h.appendMessage, readMessages_of_ordered h,
    rowsOf_appendMessage_self h hhold, rowsOf_added_self, lastOf, lastOf, List.map_drop,
    List.map_append, List.length_append, List.length_append, List.length_map, List.map_singleton,
    MessageRow.message_ofMessage]
  rfl

theorem readMessages_appendMessage_of_ne (h : r.Ordered) (hne : conversation' ≠ conversation) :
    (r.appendMessage conversation m).readMessages conversation' = r.readMessages conversation' := by
  rw [readMessages_of_ordered h.appendMessage, readMessages_of_ordered h,
    rowsOf_appendMessage_of_ne hne]

end Store.Rows

namespace Request

/-- Requests for what was said, and to add to it. -/
def OfMemory : Request → Prop
  | readMemory _ | appendMemory .. => True
  | _ => False

def KeepsMessages : Request → Prop
  | appendMemory .. => False
  | _ => True

end Request

def Exchange.appended? : Exchange → Option (String × Message)
  | ⟨.appendMemory conversation m, _⟩ => some (conversation, m)
  | _ => none

namespace Trace

variable {t t' : Trace} {conversation : String}

def appended (t : Trace) : List (String × Message) := t.filterMap Exchange.appended?

def saidIn (conversation : String) (t : Trace) : List Message :=
  (t.appended.filter (·.1 = conversation)).map (·.2)

@[simp] theorem appended_append : appended (t ++ t') = appended t ++ appended t' :=
  List.filterMap_append

theorem appended_of_keeps (h : ∀ x ∈ t, x.1.KeepsMessages) : t.appended = [] := by
  refine List.filterMap_eq_nil_iff.mpr fun x hx => ?_
  have hkeeps := h x hx
  obtain ⟨r, answer⟩ := x
  cases r <;> first | rfl | exact absurd hkeeps id

theorem saidIn_of_keeps {x : Exchange} (h : x.1.KeepsMessages) :
    saidIn conversation (x :: t) = saidIn conversation t := by
  obtain ⟨r, answer⟩ := x
  cases r <;> first | rfl | exact absurd h id

theorem saidIn_appendMemory (conversation' : String) (m : Message) (kept : Except TurnError Unit) :
    saidIn conversation (⟨.appendMemory conversation' m, kept⟩ :: t) =
      (if conversation = conversation' then [m] else []) ++ saidIn conversation t := by
  have hcons : appended (⟨.appendMemory conversation' m, kept⟩ :: t) =
      (conversation', m) :: t.appended := rfl
  rw [saidIn, hcons]
  by_cases h : conversation = conversation'
  · subst h
    simp [saidIn]
  · simp [saidIn, h, Ne.symm h]

end Trace

theorem Request.keepsMessages_of_not_ofMemory {r : Request} (h : ¬ r.OfMemory) :
    r.KeepsMessages := by
  cases r <;> first | trivial | exact absurd trivial h

namespace Stores
open Store.Memory (lastOf)

variable {s s' : Stores} {t : Trace} {conversation conversation' : String} {m : Message}

def maxMessages : Stores → Nat
  | lists memory _ => memory.maxMessages
  | tables rows => rows.maxMessages

def Ordered : Stores → Prop
  | lists .. => True
  | tables rows => rows.Ordered

/-- So many messages of a conversation are kept, or the oldest are forgotten in time. -/
def CanHold (count : Nat) : Stores → Prop
  | lists .. => True
  | tables rows => rows.CanHold count

theorem CanHold.mono {count count' : Nat} (h : s.CanHold count') (hle : count ≤ count') :
    s.CanHold count := by
  cases s with
  | lists => trivial
  | tables => exact h.imp_right fun ⟨hlt, hcount⟩ => ⟨hlt, Nat.le_trans hle hcount⟩

theorem readMessages_appendMessage_self (h : s.Ordered)
    (hhold : s.CanHold ((s.readMessages conversation).length + 1)) :
    (s.appendMessage conversation m).readMessages conversation =
      lastOf s.maxMessages (s.readMessages conversation ++ [m]) := by
  cases s with
  | lists memory => exact memory.read_append_self ..
  | tables rows => exact Store.Rows.readMessages_appendMessage_self h hhold

theorem readMessages_appendMessage_of_ne (h : s.Ordered) (hne : conversation' ≠ conversation) :
    (s.appendMessage conversation m).readMessages conversation' = s.readMessages conversation' := by
  cases s with
  | lists memory => exact memory.read_append_of_ne hne _
  | tables rows => exact Store.Rows.readMessages_appendMessage_of_ne h hne

/-- The messages are the same, whatever else has become of the stores. -/
inductive SameMessages : Stores → Stores → Prop where
  | lists (memory : Store.Memory) (pending pending' : Store.Pending) :
    SameMessages (lists memory pending) (lists memory pending')
  | tables {rows rows' : Store.Rows} : rows'.maxMessages = rows.maxMessages →
    rows'.messages = rows.messages → rows'.lastMessage = rows.lastMessage →
    SameMessages (tables rows) (tables rows')

theorem sameMessages_after {r : Request} (h : r.KeepsMessages) (s : Stores) :
    s.SameMessages (s.after r) := by
  cases s with
  | lists memory pending => cases r <;> first | exact .lists .. | exact absurd h id
  | tables rows =>
    cases r with
    | appendMemory => exact absurd h id
    | replacePending c intents =>
      obtain ⟨intents', last, hrows⟩ := Store.Rows.exists_replaceIntents c intents rows
      change SameMessages _ (tables (rows.replaceIntents c intents))
      rw [hrows]
      exact .tables rfl rfl rfl
    | _ => exact .tables rfl rfl rfl

/-- The stores can keep `count` messages of a conversation or forget the oldest in time, and hold
the last of what was said in each. -/
structure Hold (limit count : Nat) (said : String → List Message) (s : Stores) : Prop where
  ordered : s.Ordered
  limited : s.maxMessages = limit
  room : s.CanHold count
  messages : ∀ conversation, s.readMessages conversation = lastOf limit (said conversation)

variable {limit count : Nat} {said : String → List Message}

theorem Hold.of_sameMessages (h : s.Hold limit count said) (hsame : s.SameMessages s') :
    s'.Hold limit count said := by
  obtain ⟨hordered, hlimited, hroom, hmessages⟩ := h
  cases hsame with
  | lists => exact ⟨trivial, hlimited, trivial, hmessages⟩
  | @tables rows rows' hmax hrows hlast =>
    have hordered' : rows'.Ordered := ⟨hrows ▸ hordered.increasing, hrows ▸ hlast ▸ hordered.given⟩
    refine ⟨hordered', hmax.trans hlimited, ?_, ?_⟩
    · change rows'.CanHold count
      rw [Store.Rows.CanHold, hmax]
      exact hroom
    · intro conversation
      change rows'.readMessages conversation = _
      rw [Store.Rows.readMessages, hrows]
      exact hmessages conversation

theorem Hold.appendMessage (h : s.Hold limit count said)
    (hroom : (said conversation).length + 1 ≤ count) :
    (s.appendMessage conversation m).Hold limit count fun c =>
      said c ++ if c = conversation then [m] else [] := by
  have hread : (s.readMessages conversation).length + 1 ≤ count := by
    rw [h.messages]
    exact Nat.le_trans (Nat.succ_le_succ (Store.Memory.length_lastOf_le ..)) hroom
  refine ⟨?_, ?_, ?_, fun c => ?_⟩
  · cases s with
    | lists => trivial
    | tables rows => exact h.ordered.appendMessage
  · rw [← h.limited]
    cases s <;> rfl
  · have hroom := h.room
    cases s <;> exact hroom
  · by_cases hc : c = conversation
    · subst hc
      rw [readMessages_appendMessage_self h.ordered (h.room.mono hread), h.limited, h.messages,
        Store.Memory.lastOf_lastOf_append, if_pos rfl]
    · rw [readMessages_appendMessage_of_ne h.ordered hc, h.messages, if_neg hc, List.append_nil]

/-- The memory answers a dialogue and does not fail, whatever becomes of what else is stored. -/
inductive Remembers : Stores → Trace → Stores → Prop where
  | nil (s : Stores) : Remembers s [] s
  | memory {s s' : Stores} {x : Exchange} {t : Trace} : x.1.OfMemory → s.Answers x →
    Remembers (s.after x.1) t s' → Remembers s (x :: t) s'
  | other {s s₁ s' : Stores} {x : Exchange} {t : Trace} : ¬ x.1.OfMemory → s.SameMessages s₁ →
    Remembers s₁ t s' → Remembers s (x :: t) s'

/-- Stores that answer everything remember what is said. -/
theorem Serve.remembers (h : s.Serve t s') : s.Remembers t s' := by
  induction h with
  | nil => exact .nil _
  | @cons s s' x t hx _ ih =>
    by_cases hmemory : x.1.OfMemory
    · exact .memory hmemory hx ih
    · exact .other hmemory (sameMessages_after (Request.keepsMessages_of_not_ofMemory hmemory) s) ih

/-- After a dialogue the stores hold the last of what had been said and of what was said in it. -/
theorem hold_of_remembers (h : s.Remembers t s') (hold : s.Hold limit count said)
    (hroom : ∀ c, (said c).length + (t.saidIn c).length ≤ count) :
    s'.Hold limit count fun c => said c ++ t.saidIn c := by
  -- What is appended moves from the trace to what was said, so the room that is needed stays.
  induction h generalizing said with
  | nil => simpa [Trace.saidIn, Trace.appended] using hold
  | @memory s s' x t hx _ _ ih =>
    obtain ⟨r, answer⟩ := x
    cases r with
    | readMemory => exact ih hold hroom
    | appendMemory conversation m =>
      simp only [Trace.saidIn_appendMemory, ← List.append_assoc] at hroom ⊢
      refine ih (hold.appendMessage ?_) fun c => ?_
      · have hself := hroom conversation
        rw [if_pos rfl, List.singleton_append, List.length_cons] at hself
        omega
      · rw [List.length_append, Nat.add_assoc, ← List.length_append]
        exact hroom c
    | _ => exact absurd hx id
  | @other s s₁ s' x t hx hsame _ ih =>
    have hkeeps := Request.keepsMessages_of_not_ofMemory hx
    simp only [Trace.saidIn_of_keeps hkeeps] at hroom ⊢
    exact ih (hold.of_sameMessages hsame) hroom

theorem hold_of_new {n : Nat} (h : s = .inLists n ∨ s = .inTables n) (hroom : s.CanHold count) :
    s.Hold (max n 1) count fun _ => [] := by
  have hnothing : lastOf (max n 1) ([] : List Message) = [] :=
    Store.Memory.lastOf_of_length_le (Nat.zero_le _)
  rcases h with rfl | rfl
  · exact ⟨trivial, rfl, trivial, fun _ => hnothing.symm⟩
  · have hordered : (Store.Rows.ofMax n).Ordered := ⟨.nil, List.forall_mem_nil _⟩
    refine ⟨hordered, rfl, hroom, fun c => ?_⟩
    exact (Store.Rows.readMessages_of_ordered hordered).trans hnothing.symm

end Stores
end Switchboard
