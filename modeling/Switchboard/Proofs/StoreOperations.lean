import Switchboard.Proofs.StoredMessages
import Switchboard.Turn.Basic

/-! Stores in lists and stores in tables give the same replies. -/
namespace Switchboard.Stores
open Store.Memory (lastOf)

inductive Op where
  | append (conversation : String) (m : Message)
  | read (conversation : String)
  | get (conversation : String)
  | replace (conversation : String) (intents : List Intent)
  | clear (conversation : String)
  | pop (conversation : String)
  | streak (conversation skill : String)
  | setStreak (conversation skill : String) (count : Nat)
  | clearStreaks (conversation : String)
deriving Repr

inductive Reply where
  | done
  | messages (messages : List Message)
  | intents (intents : List Intent)
  | count (count : Nat)
deriving DecidableEq, Repr

def reply (s : Stores) : Op → Reply
  | .read c => .messages (s.readMessages c)
  | .get c | .pop c => .intents (s.getIntents c)
  | .streak c skill => .count (s.streak c skill)
  | _ => .done

def perform (s : Stores) : Op → Stores
  | .append c m => s.appendMessage c m
  | .replace c intents => s.replaceIntents c intents
  | .clear c => s.clearIntents c
  | .pop c => if (s.getIntents c).isEmpty then s else s.clearIntents c
  | .setStreak c skill count => s.setStreak c skill count
  | .clearStreaks c => s.clearStreaks c
  | _ => s

def replies : Stores → List Op → List Reply
  | _, [] => []
  | s, op :: ops => s.reply op :: (s.perform op).replies ops

/-- The stores after their file is closed and opened again; lists are kept in none. -/
def reopen (n : Nat) : Stores → Stores
  | lists memory pending => lists memory pending
  | tables rows => tables (.openOn n rows.toTables)

/-- The replies to operations in sessions, each of which opens the file again. -/
def repliesIn (n : Nat) : Stores → List (List Op) → List Reply
  | _, [] => []
  | s, ops :: sessions =>
    (s.reopen n).replies ops ++ repliesIn n (ops.foldl perform (s.reopen n)) sessions

namespace Op

def Fits : Op → Prop
  | setStreak _ _ count => count < twoTo 63
  | _ => True

def said? (conversation : String) : Op → Option Message
  | append c m => if conversation = c then some m else none
  | _ => none

def left? (conversation : String) : Op → Option (List Intent)
  | replace c intents => if conversation = c then some intents else none
  | clear c | pop c => if conversation = c then some [] else none
  | _ => none

def streak? (conversation skill : String) : Op → Option Nat
  | setStreak c skill' count => if conversation = c ∧ skill = skill' then some count else none
  | clearStreaks c => if conversation = c then some 0 else none
  | _ => none

end Op

/-! What a history leaves in stores that were new before it. -/

def said (conversation : String) (past : List Op) : List Message :=
  past.filterMap (·.said? conversation)

/-- What the last operation that changes a value leaves of it. -/
def latest {α : Type} (f : Op → Option α) (start : α) (past : List Op) : α :=
  (past.reverse.findSome? f).getD start

/-- The reply to an operation after others: of what was said the last messages, at least one of
them, and what the last change left of the intents and the streaks. -/
def Op.replyAfter (n : Nat) (past : List Op) : Op → Reply
  | read c => .messages (lastOf (max 1 n) (said c past))
  | get c | pop c => .intents (latest (·.left? c) [] past)
  | streak c skill => .count (latest (·.streak? c skill) 0 past)
  | _ => .done

theorem latest_concat {α : Type} (f : Op → Option α) (start : α) (past : List Op) (op : Op) :
    latest f start (past ++ [op]) = (f op).getD (latest f start past) := by
  rw [latest, List.reverse_append, List.reverse_singleton, List.singleton_append,
    List.findSome?_cons]
  cases f op <;> rfl

theorem said_append (conversation : String) (past past' : List Op) :
    said conversation (past ++ past') = said conversation past ++ said conversation past' :=
  List.filterMap_append

theorem length_said_le (conversation : String) (past : List Op) :
    (said conversation past).length ≤ past.length :=
  List.length_filterMap_le ..

variable {n count limit : Nat} {s : Stores} {op : Op} {ops past : List Op}
  {said' : String → List Message}

/-- The turns of a conversation take its intents out of the stores by this operation. -/
theorem perform_pop_of_run {conversation : String} {t : Trace} {intents : List Intent}
    {s' : Stores} (h : (Agent.popPending conversation).Run t intents) (hs : s.Serve t s') :
    s.reply (.pop conversation) = .intents intents ∧ s.perform (.pop conversation) = s' := by
  obtain ⟨answer, t, rfl, hget⟩ := Program.run_ask.mp h
  obtain ⟨rfl, hs⟩ := serve_cons.mp hs
  change Serve s t s' at hs
  rw [reply, perform]
  cases hpending : s.getIntents conversation with
  | nil =>
    rw [hpending] at hget
    obtain ⟨rfl, rfl⟩ := Program.run_done.mp hget
    exact ⟨rfl, (serve_nil.mp hs).symm⟩
  | cons i rest =>
    rw [hpending] at hget
    obtain ⟨cleared, t, rfl, hclear⟩ := Program.run_ask.mp hget
    obtain ⟨rfl, hs⟩ := serve_cons.mp hs
    obtain ⟨rfl, rfl⟩ := Program.run_done.mp hclear
    exact ⟨rfl, (serve_nil.mp hs).symm⟩

theorem getIntents_clearIntents_eq (s : Stores) (conversation c : String) :
    (s.clearIntents c).getIntents conversation =
      if conversation = c then [] else s.getIntents conversation := by
  split
  next h => rw [h, getIntents_clearIntents]
  next h => exact getIntents_clearIntents_of_ne h s

theorem getIntents_perform_pop (s : Stores) (conversation c : String) :
    (s.perform (.pop c)).getIntents conversation =
      (s.clearIntents c).getIntents conversation := by
  rw [perform]
  split
  next hempty =>
    rw [getIntents_clearIntents_eq]
    split
    next h => rw [h, List.isEmpty_iff.mp hempty]
    next => rfl
  next => rfl

theorem getIntents_perform (s : Stores) (op : Op) (conversation : String) :
    (s.perform op).getIntents conversation =
      (op.left? conversation).getD (s.getIntents conversation) := by
  cases op with
  | append c m => exact getIntents_after (r := .appendMemory c m) trivial s conversation
  | setStreak c skill count =>
    exact getIntents_after (r := .setAskStreak c skill count) trivial s conversation
  | clearStreaks c => exact getIntents_after (r := .clearAskStreaks c) trivial s conversation
  | replace c intents =>
    rw [perform, Op.left?]
    split
    next h => rw [h, getIntents_replaceIntents, Option.getD_some]
    next h => exact getIntents_replaceIntents_of_ne h intents s
  | clear c =>
    rw [perform, getIntents_clearIntents_eq, Op.left?]
    split <;> rfl
  | pop c =>
    rw [getIntents_perform_pop, getIntents_clearIntents_eq, Op.left?]
    split <;> rfl
  | _ => rfl

def CanTake (s : Stores) : Op → Prop
  | .setStreak _ _ count => s.CanKeep count
  | _ => True

theorem canTake_of_fits (h : op.Fits) (s : Stores) : s.CanTake op := by
  cases op with
  | setStreak =>
    cases s with
    | lists => trivial
    | tables => exact h
  | _ => trivial

/-- Lists keep any count. -/
theorem canTake_lists (memory : Store.Memory) (pending : Store.Pending) (op : Op) :
    (lists memory pending).CanTake op := by
  cases op <;> trivial

theorem streak_perform (h : s.CanTake op) (conversation skill : String) :
    (s.perform op).streak conversation skill =
      (op.streak? conversation skill).getD (s.streak conversation skill) := by
  cases op with
  | append c m => exact streak_after (r := .appendMemory c m) trivial s
  | replace c intents => exact streak_after (r := .replacePending c intents) trivial s
  | clear c => exact streak_after (r := .clearPending c) trivial s
  | pop c =>
    rw [perform]
    split
    · rfl
    · exact streak_after (r := .clearPending c) trivial s
  | setStreak c skill' count =>
    rw [perform, Op.streak?]
    split
    next heq =>
      obtain ⟨rfl, rfl⟩ := heq
      exact streak_setStreak_self h
    next hne => exact streak_setStreak_of_ne hne s count
  | clearStreaks c =>
    rw [perform, Op.streak?]
    split
    next heq => rw [heq]; exact streak_clearStreaks s
    next hne => exact streak_clearStreaks_of_ne hne s
  | _ => rfl

theorem sameMessages_perform (h : ∀ c, op.said? c = none) (s : Stores) :
    s.SameMessages (s.perform op) := by
  cases op with
  | append c m =>
    have hsaid := h c
    rw [Op.said?, if_pos rfl] at hsaid
    cases hsaid
  | replace c intents => exact sameMessages_after (r := .replacePending c intents) trivial s
  | setStreak c skill count => exact sameMessages_after (r := .setAskStreak c skill count) trivial s
  | clearStreaks c => exact sameMessages_after (r := .clearAskStreaks c) trivial s
  | clear c => exact sameMessages_after (r := .clearPending c) trivial s
  | pop c =>
    rw [perform]
    split
    · exact sameMessages_after (r := .getPending c) trivial s
    · exact sameMessages_after (r := .clearPending c) trivial s
  | read c | get c | streak c => exact sameMessages_after (r := .getPending c) trivial s

theorem Hold.perform (h : s.Hold limit count said')
    (hroom : ∀ c, (said' c ++ (op.said? c).toList).length ≤ count) :
    (s.perform op).Hold limit count fun c => said' c ++ (op.said? c).toList := by
  cases op with
  | append conversation m =>
    have hself := hroom conversation
    rw [Op.said?, if_pos rfl, List.length_append] at hself
    have hsaid (c : String) : ((Op.append conversation m).said? c).toList =
        if c = conversation then [m] else [] := by
      rw [Op.said?]
      split <;> rfl
    simp only [hsaid]
    exact h.appendMessage hself
  | _ =>
    simp only [Op.said?, Option.toList_none, List.append_nil]
    refine h.of_sameMessages (sameMessages_perform ?_ s)
    exact fun _ => rfl

/-- The stores hold what a history leaves in them, and have room for `count` messages. -/
structure Reflects (n count : Nat) (past : List Op) (s : Stores) : Prop where
  hold : s.Hold (max n 1) count fun c => said c past
  intents : ∀ c, s.getIntents c = latest (·.left? c) [] past
  streaks : ∀ c skill, s.streak c skill = latest (·.streak? c skill) 0 past

theorem reflects_of_new (h : s = .inLists n ∨ s = .inTables n) (hroom : s.CanHold count) :
    s.Reflects n count [] := by
  refine ⟨hold_of_new h hroom, fun c => ?_, fun c skill => ?_⟩
  · rcases h with rfl | rfl
    · rfl
    · change Store.Rows.valuesOf c [] = []
      rw [Store.Rows.valuesOf, List.filter_nil, List.mergeSort_nil, List.map_nil]
  · rcases h with rfl | rfl <;> rfl

theorem Reflects.reply (h : s.Reflects n count past) (op : Op) :
    s.reply op = op.replyAfter n past := by
  cases op with
  | read c => exact congrArg Reply.messages (Nat.max_comm n 1 ▸ h.hold.messages c)
  | get c | pop c => exact congrArg Reply.intents (h.intents c)
  | streak c skill => exact congrArg Reply.count (h.streaks c skill)
  | _ => rfl

theorem Reflects.perform (h : s.Reflects n count past) (hfits : op.Fits)
    (hroom : ∀ c, (said c (past ++ [op])).length ≤ count) :
    (s.perform op).Reflects n count (past ++ [op]) := by
  have hsaid (c : String) : said c (past ++ [op]) = said c past ++ (op.said? c).toList := by
    rw [said_append, said, said, List.filterMap_cons, List.filterMap_nil]
    cases op.said? c <;> rfl
  refine ⟨?_, fun c => ?_, fun c skill => ?_⟩
  · simp only [hsaid] at hroom ⊢
    exact h.hold.perform hroom
  · rw [getIntents_perform, latest_concat, h.intents]
  · rw [streak_perform (canTake_of_fits hfits s), latest_concat, h.streaks]

/-- A file holds all that its store does. -/
theorem Reflects.reopen (h : s.Reflects n count past) : s.reopen n = s := by
  have hlimit := h.hold.limited
  cases s with
  | lists => rfl
  | tables rows =>
    change rows.maxMessages = max n 1 at hlimit
    rw [Stores.reopen, Store.Rows.openOn, ← hlimit]

theorem Reflects.replies (h : s.Reflects n count past) (hfits : ∀ op ∈ ops, op.Fits)
    (hroom : ∀ c, (said c (past ++ ops)).length ≤ count) :
    (ops.foldl Stores.perform s).Reflects n count (past ++ ops) ∧
      s.replies ops = ops.mapIdx fun i op => op.replyAfter n (past ++ ops.take i) := by
  -- What is done moves from the operations to the past, so what the stores hold stays in view.
  induction ops generalizing s past with
  | nil => exact ⟨(List.append_nil past).symm ▸ h, rfl⟩
  | cons op ops ih =>
    obtain ⟨hop, hfits⟩ := List.forall_mem_cons.mp hfits
    have hpast : past ++ op :: ops = past ++ [op] ++ ops := List.append_cons ..
    rw [hpast] at hroom ⊢
    have hroom' (c : String) : (said c (past ++ [op])).length ≤ count := by
      refine Nat.le_trans ?_ (hroom c)
      rw [said_append c (past ++ [op]), List.length_append]
      exact Nat.le_add_right ..
    obtain ⟨hlast, hreplies⟩ := ih (h.perform hop hroom') hfits hroom
    have htake (i : Nat) : past ++ (op :: ops).take (i + 1) = past ++ [op] ++ ops.take i := by
      rw [List.take_succ_cons, List.append_cons]
    refine ⟨hlast, ?_⟩
    rw [Stores.replies, h.reply, hreplies, List.mapIdx_cons, List.take_zero, List.append_nil]
    simp only [htake]

theorem replies_append (s : Stores) (ops ops' : List Op) :
    s.replies (ops ++ ops') = s.replies ops ++ (ops.foldl Stores.perform s).replies ops' := by
  induction ops generalizing s with
  | nil => rfl
  | cons op ops ih => exact congrArg _ (ih _)

/-- The sessions make no difference to the replies. -/
theorem Reflects.repliesIn {sessions : List (List Op)} (h : s.Reflects n count past)
    (hfits : ∀ op ∈ sessions.flatten, op.Fits)
    (hroom : ∀ c, (said c (past ++ sessions.flatten)).length ≤ count) :
    s.repliesIn n sessions = s.replies sessions.flatten := by
  induction sessions generalizing s past with
  | nil => rfl
  | cons ops sessions ih =>
    rw [List.flatten_cons] at hfits hroom ⊢
    obtain ⟨hops, hfits⟩ := List.forall_mem_append.mp hfits
    rw [← List.append_assoc] at hroom
    have hroom' (c : String) : (said c (past ++ ops)).length ≤ count := by
      refine Nat.le_trans ?_ (hroom c)
      rw [said_append c (past ++ ops), List.length_append]
      exact Nat.le_add_right ..
    obtain ⟨hlast, -⟩ := h.replies hops hroom'
    rw [Stores.repliesIn, h.reopen, replies_append, ih hlast hfits hroom]

/-- A number of messages that the tables have room for and no conversation exceeds. -/
theorem exists_room (hroom : ∀ c, (inTables n).CanHold (said c ops).length) :
    ∃ count, (inTables n).CanHold count ∧ ∀ c, (said c ops).length ≤ count := by
  rcases Nat.lt_or_ge (max n 1) (twoTo 63) with hlt | hge
  · exact ⟨ops.length, .inl hlt, fun c => length_said_le c ops⟩
  · have hlimited (c : String) : max n 1 < twoTo 64 ∧ (said c ops).length ≤ max n 1 :=
      (hroom c).resolve_left (Nat.not_lt_of_le hge)
    exact ⟨max n 1, .inr ⟨(hlimited "").1, Nat.le_refl _⟩, fun c => (hlimited c).2⟩

/-- Lists and tables give the same replies to the same operations, in any number of conversations
and with the file closed and opened again in between as often as one likes; and those replies are
what the operations before leave: the last messages that were said, at least one, the intents of
the last replacement unless they were cleared or taken out since, and the streaks last set. The
counts have to fit in a signed column; a window that does not is no limit there, so that no more may
be said in a conversation than it keeps. -/
theorem replies_inTables {sessions : List (List Op)} (hfits : ∀ op ∈ sessions.flatten, op.Fits)
    (hroom : ∀ c, (inTables n).CanHold (said c sessions.flatten).length) :
    (inTables n).repliesIn n sessions = (inLists n).replies sessions.flatten ∧
    (inTables n).repliesIn n sessions = (inTables n).replies sessions.flatten ∧
    (inLists n).replies sessions.flatten =
      sessions.flatten.mapIdx fun i op => op.replyAfter n (sessions.flatten.take i) := by
  obtain ⟨count, hcount, hle⟩ := exists_room hroom
  have htables := reflects_of_new (.inr rfl) hcount
  have hlists : (inLists n).Reflects n count [] := reflects_of_new (.inl rfl) trivial
  have hsessions := htables.repliesIn hfits hle
  obtain ⟨-, hrows⟩ := htables.replies hfits hle
  obtain ⟨-, hvalues⟩ := hlists.replies hfits hle
  exact ⟨hsessions.trans (hrows.trans hvalues.symm), hsessions, hvalues⟩

def sampleSessions : List (List Op) :=
  [[.append "c" ⟨.user, "a"⟩, .append "c" ⟨.assistant, "b"⟩, .replace "c" [⟨"refund", "t"⟩],
      .setStreak "c" "refund" 3],
    [.read "c", .pop "c", .get "c", .streak "c" "refund"]]

/-- So they do where a message is forgotten and the intents are taken out of the file later. -/
theorem replies_inTables_sample : (∀ op ∈ sampleSessions.flatten, op.Fits) ∧
    (∀ c, (inTables 0).CanHold (said c sampleSessions.flatten).length) ∧
    (inTables 0).repliesIn 0 sampleSessions = [.done, .done, .done, .done,
      .messages [⟨.assistant, "b"⟩], .intents [⟨"refund", "t"⟩], .intents [], .count 3] := by
  have hfits : ∀ op ∈ sampleSessions.flatten, op.Fits := by
    simp [sampleSessions, Op.Fits, twoTo]
  have hroom (c : String) : (inTables 0).CanHold (said c sampleSessions.flatten).length :=
    .inl (by decide)
  obtain ⟨hlists, -, -⟩ := replies_inTables hfits hroom
  refine ⟨hfits, hroom, hlists.trans ?_⟩
  rfl

end Switchboard.Stores
