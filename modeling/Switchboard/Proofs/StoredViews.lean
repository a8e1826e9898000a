import Switchboard.Proofs.StoredMessages

/-! What one conversation sees of the stores, and that nobody else changes it. -/
namespace Switchboard

namespace Store.Rows
open Memory (lastOf)

variable {α : Type} {conversation : String} {r : Rows} {m : Message}

/-- What is left of a conversation's rows under a limit; a negative one is none. -/
def limited (limit : Int) (xs : List α) : List α :=
  if limit < 0 then xs else lastOf limit.toNat xs

theorem filter_mem_limited {f : α → Nat} {xs : List α} (h : xs.Pairwise (f · < f ·))
    (limit : Int) :
    xs.filter (fun x => ((limited limit xs).map f).contains (f x)) = limited limit xs := by
  unfold limited
  split
  · exact filter_mem_drop h 0
  · exact filter_mem_drop h _

/-- Whatever the limit, the messages after a new one follow from those before it. -/
theorem readMessages_appendMessage (h : r.Ordered) :
    (r.appendMessage conversation m).readMessages conversation =
      limited (signedColumn r.maxMessages) (r.readMessages conversation ++ [m]) := by
  have hadded : (rowsOf conversation (r.added conversation m)).Pairwise (·.id < ·.id) :=
    h.added.filter _
  have hkept : newest (signedColumn r.maxMessages) conversation (r.added conversation m) =
      ((limited (signedColumn r.maxMessages) (rowsOf conversation (r.added conversation m))).map
        (·.id)).reverse := newest_of_pairwise h.added _
  have hrows : rowsOf conversation (r.appendMessage conversation m).messages =
      limited (signedColumn r.maxMessages) (rowsOf conversation (r.added conversation m)) := by
    rw [← filter_mem_limited hadded, messages_appendMessage, hkept, rowsOf, rowsOf,
      List.filter_filter, List.filter_filter]
    refine List.filter_congr fun x _ => ?_
    by_cases hx : x.conversation = conversation <;> simp [hx]
  have hmap (xs : List (Numbered MessageRow)) :
      (limited (signedColumn r.maxMessages) xs).map (·.value.message) =
        limited (signedColumn r.maxMessages) (xs.map (·.value.message)) := by
    unfold limited lastOf
    split
    · rfl
    · rw [List.map_drop, List.length_map]
  rw [readMessages_of_ordered h.appendMessage, hrows, hmap, rowsOf_added_self, List.map_append,
    readMessages_of_ordered h, List.map_singleton, MessageRow.message_ofMessage]

theorem streak_setStreak (r : Rows) (conversation skill : String) (count : Nat) :
    (r.setStreak conversation skill count).streak conversation skill =
      (signedColumn count).toNat := by
  have hdropped : (dropStreak conversation skill r.streaks).find?
      (fun s => s.conversation = conversation && s.skill = skill) = none :=
    find?_dropStreak_self r.streaks
  unfold setStreak streak
  dsimp only
  by_cases hzero : count = 0
  · rw [if_pos hzero, hdropped, hzero]
    rfl
  · rw [if_neg hzero, List.find?_append, hdropped, Option.none_or]
    simp

end Store.Rows

namespace Request

def conversation? : Request → Option String
  | readMemory c | appendMemory c _ | getPending c | replacePending c _ | clearPending c
  | askStreak c _ | setAskStreak c .. | clearAskStreaks c => some c
  | _ => none

/-- A request that asks the stores of no other conversation. -/
def Concerns (conversation : String) (r : Request) : Prop :=
  ∀ c, r.conversation? = some c → c = conversation

end Request

namespace Stores

/-- What one conversation sees of the stores. -/
structure View where
  messages : List Message
  intents : List Intent
  streak : String → Nat

def view (s : Stores) (conversation : String) : View :=
  ⟨s.readMessages conversation, s.getIntents conversation, s.streak conversation⟩

/-- Stores of one kind that keep equally much. -/
inductive SameKind : Stores → Stores → Prop where
  | lists {memory memory' : Store.Memory} (pending pending' : Store.Pending) :
    memory.maxMessages = memory'.maxMessages →
    SameKind (lists memory pending) (lists memory' pending')
  | tables {rows rows' : Store.Rows} : rows.maxMessages = rows'.maxMessages →
    SameKind (tables rows) (tables rows')

variable {s s' : Stores} {conversation : String}

theorem SameKind.refl (s : Stores) : SameKind s s := by
  cases s with
  | lists memory pending => exact .lists pending pending rfl
  | tables => exact .tables rfl

theorem SameKind.symm (h : SameKind s s') : SameKind s' s := by
  cases h with
  | lists pending pending' hmax => exact .lists pending' pending hmax.symm
  | tables hmax => exact .tables hmax.symm

theorem SameKind.trans {s'' : Stores} (h : SameKind s s') (h' : SameKind s' s'') :
    SameKind s s'' := by
  cases h with
  | lists pending _ hmax =>
    cases h' with
    | lists _ pending'' hmax' => exact .lists pending pending'' (hmax.trans hmax')
  | tables hmax =>
    cases h' with
    | tables hmax' => exact .tables (hmax.trans hmax')

theorem sameKind_after (s : Stores) (r : Request) : SameKind s (s.after r) := by
  cases s with
  | lists => cases r <;> exact .lists _ _ rfl
  | tables rows =>
    cases r with
    | replacePending c intents =>
      obtain ⟨intents', last, hrows⟩ := Store.Rows.exists_replaceIntents c intents rows
      change SameKind _ (tables (rows.replaceIntents c intents))
      rw [hrows]
      exact .tables rfl
    | _ => exact .tables rfl

theorem SameMessages.readMessages (h : SameMessages s s') (conversation : String) :
    s'.readMessages conversation = s.readMessages conversation := by
  cases h with
  | lists => rfl
  | @tables rows rows' _ hrows _ =>
    change rows'.readMessages conversation = rows.readMessages conversation
    rw [Store.Rows.readMessages, hrows]
    rfl

theorem SameMessages.ordered (h : SameMessages s s') (hs : s.Ordered) : s'.Ordered := by
  cases h with
  | lists => trivial
  | tables _ hrows hlast => exact ⟨hrows ▸ hs.increasing, hrows ▸ hlast ▸ hs.given⟩

theorem Ordered.after (h : s.Ordered) (r : Request) : (s.after r).Ordered := by
  by_cases hr : r.KeepsMessages
  · exact (sameMessages_after hr s).ordered h
  · cases r with
    | appendMemory c m =>
      cases s with
      | lists => trivial
      | tables rows => exact Store.Rows.Ordered.appendMessage h
    | _ => exact absurd trivial hr

theorem readMessages_appendMessage (hkind : SameKind s s') (hs : s.Ordered) (hs' : s'.Ordered)
    (h : s.readMessages conversation = s'.readMessages conversation) (m : Message) :
    (s.appendMessage conversation m).readMessages conversation =
      (s'.appendMessage conversation m).readMessages conversation := by
  cases hkind with
  | @lists memory memory' _ _ hmax =>
    change (memory.append conversation m).read conversation =
      (memory'.append conversation m).read conversation
    rw [memory.read_append_self, memory'.read_append_self, hmax]
    congr 2
  | @tables rows rows' hmax =>
    change (rows.appendMessage conversation m).readMessages conversation =
      (rows'.appendMessage conversation m).readMessages conversation
    rw [Store.Rows.readMessages_appendMessage hs, Store.Rows.readMessages_appendMessage hs', hmax]
    congr 2

theorem streak_setStreak (hkind : SameKind s s') (conversation skill : String) (count : Nat) :
    (s.setStreak conversation skill count).streak conversation skill =
      (s'.setStreak conversation skill count).streak conversation skill := by
  cases hkind with
  | lists pending pending' _ =>
    exact (pending.streak_setStreak_self ..).trans (pending'.streak_setStreak_self ..).symm
  | @tables rows rows' _ =>
    exact (rows.streak_setStreak ..).trans (rows'.streak_setStreak ..).symm

/-- A request is nothing to a conversation that it does not concern. -/
theorem view_after_of_ne {r : Request} (hs : s.Ordered)
    (hr : r.conversation? ≠ some conversation) :
    (s.after r).view conversation = s.view conversation := by
  have hother {c : String} (hc : r.conversation? = some c) : conversation ≠ c := by
    rintro rfl
    exact hr hc
  have hread (hr : r.KeepsMessages) : (s.after r).readMessages conversation =
      s.readMessages conversation := (sameMessages_after hr s).readMessages conversation
  have hget (hr : r.KeepsPending) : (s.after r).getIntents conversation =
      s.getIntents conversation := getIntents_after hr s conversation
  have hcount (hr : r.KeepsStreaks) : (s.after r).streak conversation = s.streak conversation :=
    funext fun _ => streak_after hr s
  unfold view
  rw [View.mk.injEq]
  cases r with
  | appendMemory c m =>
    exact ⟨readMessages_appendMessage_of_ne hs (hother rfl), hget trivial, hcount trivial⟩
  | replacePending c intents =>
    exact ⟨hread trivial, getIntents_replaceIntents_of_ne (hother rfl) intents s, hcount trivial⟩
  | clearPending c =>
    exact ⟨hread trivial, getIntents_clearIntents_of_ne (hother rfl) s, hcount trivial⟩
  | setAskStreak c skill count =>
    exact ⟨hread trivial, hget trivial,
      funext fun _ => streak_setStreak_of_ne (fun h => hother rfl h.1) s count⟩
  | clearAskStreaks c =>
    exact ⟨hread trivial, hget trivial, funext fun _ => streak_clearStreaks_of_ne (hother rfl) s⟩
  | _ => exact ⟨hread trivial, hget trivial, hcount trivial⟩

/-- The view after a request follows from the view before it, in stores of one kind. -/
theorem view_after (hkind : SameKind s s') (hs : s.Ordered) (hs' : s'.Ordered)
    (h : s.view conversation = s'.view conversation) (r : Request) :
    (s.after r).view conversation = (s'.after r).view conversation := by
  by_cases hr : r.conversation? ≠ some conversation
  · rw [view_after_of_ne hs hr, view_after_of_ne hs' hr, h]
  have hr : r.conversation? = some conversation := Decidable.not_not.mp hr
  obtain ⟨hmessages, hintents, hstreak⟩ := View.mk.inj h
  have hread (hr : r.KeepsMessages) : (s.after r).readMessages conversation =
      (s'.after r).readMessages conversation := by
    rw [(sameMessages_after hr s).readMessages, (sameMessages_after hr s').readMessages, hmessages]
  have hget (hr : r.KeepsPending) : (s.after r).getIntents conversation =
      (s'.after r).getIntents conversation := by
    rw [getIntents_after hr, getIntents_after hr, hintents]
  have hcount (hr : r.KeepsStreaks) : (s.after r).streak conversation =
      (s'.after r).streak conversation := by
    funext skill
    rw [streak_after hr, streak_after hr]
    exact congrFun hstreak skill
  unfold view
  rw [View.mk.injEq]
  cases r with
  | appendMemory c m =>
    cases hr
    exact ⟨readMessages_appendMessage hkind hs hs' hmessages m, hget trivial, hcount trivial⟩
  | replacePending c intents =>
    cases hr
    have hsame : (s.replaceIntents conversation intents).getIntents conversation =
        (s'.replaceIntents conversation intents).getIntents conversation := by
      rw [getIntents_replaceIntents, getIntents_replaceIntents]
    exact ⟨hread trivial, hsame, hcount trivial⟩
  | clearPending c =>
    cases hr
    have hsame : (s.clearIntents conversation).getIntents conversation =
        (s'.clearIntents conversation).getIntents conversation := by
      rw [getIntents_clearIntents, getIntents_clearIntents]
    exact ⟨hread trivial, hsame, hcount trivial⟩
  | setAskStreak c skill count =>
    cases hr
    refine ⟨hread trivial, hget trivial, funext fun other => ?_⟩
    by_cases hskill : other = skill
    · subst hskill
      exact streak_setStreak hkind conversation other count
    · have hne : ¬(conversation = conversation ∧ other = skill) := fun h => hskill h.2
      exact ((streak_setStreak_of_ne hne s count).trans (congrFun hstreak other)).trans
        (streak_setStreak_of_ne hne s' count).symm
  | clearAskStreaks c =>
    cases hr
    have hsame : (s.clearStreaks conversation).streak conversation =
        (s'.clearStreaks conversation).streak conversation :=
      funext fun _ => (streak_clearStreaks s).trans (streak_clearStreaks s').symm
    exact ⟨hread trivial, hget trivial, hsame⟩
  | _ => exact ⟨hread trivial, hget trivial, hcount trivial⟩

/-- Stores that show a conversation the same give it the same answer. -/
theorem answer_of_view {r : Request} {answer answer' : r.Answer} (hr : r.conversation?.isSome)
    (hconcerns : r.Concerns conversation) (h : s.view conversation = s'.view conversation)
    (hs : s.Answers ⟨r, answer⟩) (hs' : s'.Answers ⟨r, answer'⟩) : answer = answer' := by
  obtain ⟨hmessages, hintents, hstreak⟩ := View.mk.inj h
  cases r with
  | readMemory c =>
    cases hconcerns c rfl
    exact hs.trans ((congrArg Except.ok hmessages).trans (Eq.symm hs'))
  | getPending c =>
    cases hconcerns c rfl
    exact hs.trans ((congrArg Except.ok hintents).trans (Eq.symm hs'))
  | askStreak c skill =>
    cases hconcerns c rfl
    exact hs.trans ((congrArg Except.ok (congrFun hstreak skill)).trans (Eq.symm hs'))
  | appendMemory | replacePending | clearPending | setAskStreak | clearAskStreaks =>
    exact Eq.trans hs (Eq.symm hs')
  | _ => cases hr

theorem exists_answers (s : Stores) {r : Request} (hr : r.conversation?.isSome) :
    ∃ answer : r.Answer, s.Answers ⟨r, answer⟩ := by
  cases r with
  | readMemory | getPending | askStreak => exact ⟨_, rfl⟩
  | appendMemory | replacePending | clearPending | setAskStreak | clearAskStreaks =>
    exact ⟨.ok (), rfl⟩
  | _ => cases hr

end Stores
end Switchboard
