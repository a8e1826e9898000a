import Switchboard.Proofs.Replies
import Switchboard.Proofs.StoredMessages

/-! What is remembered of the turns of conversations. -/
namespace Switchboard

theorem Request.OfRun.keepsMessages {r : Request} (h : r.OfRun) : r.KeepsMessages := by
  cases r <;> trivial

theorem Request.OfFinding.keepsMessages {r : Request} (h : r.OfFinding) : r.KeepsMessages := by
  cases r <;> trivial

theorem Request.OfClosing.keepsMessages {r : Request} (h : r.OfClosing) : r.KeepsMessages := by
  cases r <;> trivial

namespace Batch

variable {e : Engine} {c : Catalog} {conversation : String} {total number : Nat} {t : Trace}
  {i : Intent} {intents : List Intent} {tally : Tally}

theorem keepsMessages_of_part {run : Option IntentRun}
    {out : Option (Except TurnError Engine.Outcome)}
    (h : Part e c conversation total number i run t out) : ∀ x ∈ t, x.1.KeepsMessages := by
  have hrun {r : IntentRun} (hvalid : r.Valid e c) : ∀ x ∈ r.trace, x.1.KeepsMessages :=
    fun x hx => (hvalid.ofRun x hx).keepsMessages
  cases h with
  | unresolved | unopened => exact List.forall_mem_nil _
  | unseeded => exact List.forall_mem_singleton.mpr trivial
  | cut _ hvalid =>
    exact List.forall_mem_cons.mpr ⟨trivial, List.forall_mem_cons.mpr ⟨trivial, hrun hvalid⟩⟩
  | ran _ hvalid =>
    refine List.forall_mem_cons.mpr ⟨trivial, List.forall_mem_cons.mpr ⟨trivial, ?_⟩⟩
    exact List.forall_mem_append.mpr ⟨hrun hvalid, List.forall_mem_singleton.mpr trivial⟩

theorem keepsMessages_of_loop {runs : List IntentRun}
    {out : Option (Except TurnError (Tally × Nat))}
    (h : Loop e c conversation total number intents tally runs t out) :
    ∀ x ∈ t, x.1.KeepsMessages := by
  induction h with
  | finished | unsaved => exact List.forall_mem_nil _
  | saved => exact List.forall_mem_singleton.mpr trivial
  | failed _ _ hpart | cut _ _ hpart => exact keepsMessages_of_part hpart
  | ran _ hpart _ ih => exact List.forall_mem_append.mpr ⟨keepsMessages_of_part hpart, ih⟩

theorem Finished.keepsMessages {reply : Option String} (h : Finished tally t reply) :
    ∀ x ∈ t, x.1.KeepsMessages := by
  cases h <;> simp [Request.KeepsMessages, Exchange.taken]

theorem keepsMessages_of_execute {outcome : Outcome}
    (h : (execute e c conversation intents).run.Run t (.ok outcome)) :
    ∀ x ∈ t, x.1.KeepsMessages := by
  obtain ⟨runs, ran, ended, finished, rfl, hloop, hfinish⟩ := executed_of_ok h
  have hopening : ∀ x ∈ opening intents.length, x.1.KeepsMessages :=
    forall_mem_opening (fun _ => trivial) _
  have hclearing : ∀ x ∈ clearing conversation ended.1.asked, x.1.KeepsMessages := by
    cases ended.1.asked
    · exact List.forall_mem_singleton.mpr trivial
    · exact List.forall_mem_nil _
  exact List.forall_mem_append.mpr ⟨hopening, List.forall_mem_append.mpr
    ⟨keepsMessages_of_loop hloop, List.forall_mem_append.mpr
      ⟨hclearing, (finished_of_ok hfinish).keepsMessages⟩⟩⟩

end Batch

namespace Agent

variable {a : Agent} {conversation message : String} {t : Trace} {s s' : Stores}
  {outcome : Batch.Outcome} {result : Except TurnError Unit}

theorem Found.appended (h : Found conversation message t) :
    t.appended = [(conversation, ⟨.user, message⟩)] := by
  induction h with
  | remembered => rfl
  | @cons x t hx _ ih =>
    have hfirst : Trace.appended [x] = [] :=
      Trace.appended_of_keeps (List.forall_mem_singleton.mpr hx.keepsMessages)
    change Trace.appended ([x] ++ t) = _
    rw [Trace.appended_append, hfirst, ih]
    rfl

theorem results_of_closeTurn (h : (closeTurn result).Run t ()) : t.results = [] := by
  refine List.filterMap_eq_nil_iff.mpr fun event hm => ?_
  have hcloses := (closeTurn_only result).of_mem h _ (Trace.mem_events.mp hm)
  cases event <;> first | rfl | exact absurd hcloses id

theorem appended_of_closeTurn (h : (closeTurn result).Run t ()) : t.appended = [] :=
  Trace.appended_of_keeps fun x hx => ((closeTurn_only result).of_mem h x hx).keepsMessages

def said (message : String) (reply : Option String) : List Message :=
  ⟨.user, message⟩ :: (reply.map (⟨.assistant, ·⟩)).toList

theorem appended_answering (kept : Except TurnError Unit) (reply : Option String) :
    (answering conversation kept reply).appended =
      (reply.map fun r => (conversation, (⟨.assistant, r⟩ : Message))).toList := by
  cases reply <;> rfl

/-- What the listener sees of a turn is its reply, and the message and the reply are what is added
to the memory. Where the service is shut down the reply may be left out. -/
structure Shown (conversation message : String) (reply : Option String) (t : Trace)
    (result : Except TurnError Unit) : Prop where
  last : reply = t.results.getLast?
  text : ∀ r, reply = some r → textOf t.events = r
  begun : t.appended <+: (said message reply).map fun m => (conversation, m)
  whole : result = .ok () → t.appended = (said message reply).map fun m => (conversation, m)

/-- All results of a turn are those of its intents. -/
theorem results_of_concludes (h : a.Concludes conversation message outcome t result) :
    ∃ found intents ran, (a.gather conversation message).Run found (.ok intents) ∧
      (Batch.execute a.engine a.catalog conversation intents).run.Run ran (.ok outcome) ∧
      t.results = Trace.results ran ∧ ∀ event ∈ Trace.events ran, event ∈ t.events := by
  cases h with
  | @intro intents found ran kept closed left hgather hexecute hkeep hclose =>
    have hfound : Trace.results found = [] :=
      Trace.results_of_events_eq_nil (found_of_ok hgather).events
    have hkept : Trace.results kept = [] :=
      Trace.results_of_events_eq_nil
        (Trace.events_of_quiet fun x hx => ((keep_only _).of_mem hkeep x hx).1)
    refine ⟨found, intents, ran, hgather, hexecute, ?_, fun event hm => ?_⟩
    · change Trace.results (found ++ (ran ++ (kept ++ closed))) = _
      rw [Trace.results_append, Trace.results_append, Trace.results_append, hfound, hkept,
        results_of_closeTurn hclose, List.nil_append, List.append_nil, List.append_nil]
    · rw [Trace.events_taken, Trace.events_append, Trace.events_append]
      exact List.mem_cons_of_mem _ (List.mem_append_right _ (List.mem_append_left _ hm))

/-- The reply of a turn is the last result of its intents, and nothing else of it tells a result. -/
theorem reply_of_concludes (h : a.Concludes conversation message outcome t result) :
    outcome.reply = t.results.getLast? := by
  obtain ⟨found, intents, ran, -, hexecute, hresults, -⟩ := results_of_concludes h
  rw [hresults]
  exact Batch.reply_of_execute hexecute

/-- A turn adds its message to the memory, and then the reply to it unless it is cut short. -/
theorem appended_of_concludes (h : a.Concludes conversation message outcome t result) :
    (t.appended = (said message outcome.reply).map fun m => (conversation, m)) ∨
      (t.appended = [(conversation, ⟨.user, message⟩)] ∧ result = .error .cancelled) := by
  cases h with
  | @intro intents found ran kept closed left hgather hexecute hkeep hclose =>
    have hran : Trace.appended ran = [] :=
      Trace.appended_of_keeps (Batch.keepsMessages_of_execute hexecute)
    have happended : Trace.appended
        (.taken (.planning startNotice) :: (found ++ (ran ++ (kept ++ closed)))) =
          (conversation, ⟨.user, message⟩) :: Trace.appended kept := by
      change Trace.appended (found ++ (ran ++ (kept ++ closed))) = _
      rw [Trace.appended_append, Trace.appended_append, Trace.appended_append,
        (found_of_ok hgather).appended, hran, appended_of_closeTurn hclose, List.append_nil]
      rfl
    rw [happended]
    rcases answered_of_keep hkeep with ⟨answer, rfl, -⟩ | ⟨rfl, hleft⟩
    · left
      rw [appended_answering, said, List.map_cons]
      cases outcome.reply <;> rfl
    · right
      rw [hleft]
      exact ⟨rfl, rfl⟩

theorem textOf_of_results {r : String} (h : t.results.getLast? = some r) : textOf t.events = r := by
  have htext : textOf t.events = (t.results.getLast?.or _).getD "" := rfl
  rw [htext, h]
  rfl

theorem shown_of_concludes (h : a.Concludes conversation message outcome t result) :
    Shown conversation message outcome.reply t result := by
  have hlast := reply_of_concludes h
  refine ⟨hlast, fun r hr => textOf_of_results (hlast.symm.trans hr), ?_, fun hok => ?_⟩
  · rcases appended_of_concludes h with hall | ⟨hfirst, -⟩
    · exact hall ▸ List.prefix_rfl
    · rw [hfirst]
      exact List.prefix_append [_] _
  · rcases appended_of_concludes h with hall | ⟨-, hcancelled⟩
    · exact hall
    · cases hok.symm.trans hcancelled

/-- A turn of some conversation whose intents came to an outcome. -/
structure Concluded where
  conversation : String
  message : String
  trace : Trace
  outcome : Batch.Outcome

namespace Concluded

def said (turn : Concluded) : List Message := Agent.said turn.message turn.outcome.reply

end Concluded

/-- Turns of conversations that are handled to their end, one after the other, with a memory that
does not fail. -/
inductive Conclusions (a : Agent) : Stores → List Concluded → Stores → Prop where
  | nil (s : Stores) : Conclusions a s [] s
  | cons {s s₁ s' : Stores} {turn : Concluded} {rest : List Concluded} :
    a.Concludes turn.conversation turn.message turn.outcome turn.trace (.ok ()) →
    s.Remembers turn.trace s₁ → Conclusions a s₁ rest s' → Conclusions a s (turn :: rest) s'

def saidOver (conversation : String) (turns : List Concluded) : List Message :=
  (turns.filter (·.conversation = conversation)).flatMap Concluded.said

theorem saidIn_of_appended {conversation' : String} {messages : List Message}
    (h : t.appended = messages.map fun m => (conversation, m)) :
    t.saidIn conversation' = if conversation' = conversation then messages else [] := by
  rw [Trace.saidIn, h, List.filter_map, List.map_map]
  split
  next heq =>
    subst heq
    simp [Function.comp_def]
  next hne => simp [Function.comp_def, Ne.symm hne]

theorem length_said_le (message : String) (reply : Option String) :
    (said message reply).length ≤ 2 := by
  cases reply
  · exact Nat.le_succ 1
  · exact Nat.le_refl 2

theorem saidOver_cons (conversation : String) (turn : Concluded) (rest : List Concluded) :
    saidOver conversation (turn :: rest) =
      (if conversation = turn.conversation then turn.said else []) ++
        saidOver conversation rest := by
  by_cases h : conversation = turn.conversation
  · simp [saidOver, h]
  · simp [saidOver, h, Ne.symm h]

/-- After turns the stores hold the last of what had been said and of what was said in them. -/
theorem hold_of_conclusions {turns : List Concluded} {limit count : Nat}
    {past : String → List Message} (h : Conclusions a s turns s') (hold : s.Hold limit count past)
    (hroom : ∀ c, (past c).length + 2 * turns.length ≤ count) :
    s'.Hold limit count fun c => past c ++ saidOver c turns := by
  induction h generalizing past with
  | nil => simpa [saidOver] using hold
  | @cons s s₁ s' turn rest hconcludes hremembers _ ih =>
    have hsaid (c : String) : turn.trace.saidIn c =
        if c = turn.conversation then turn.said else [] :=
      saidIn_of_appended ((shown_of_concludes hconcludes).whole rfl)
    have hlength (c : String) : (turn.trace.saidIn c).length ≤ 2 := by
      rw [hsaid]
      split
      · exact length_said_le ..
      · exact Nat.zero_le 2
    have hcount (c : String) : (past c).length + 2 * (rest.length + 1) ≤ count := hroom c
    have hold₁ := Stores.hold_of_remembers hremembers hold fun c => by
      have hle := hlength c
      have hleft := hcount c
      omega
    have hold' := ih hold₁ fun c => by
      have hle := hlength c
      have hleft := hcount c
      rw [List.length_append]
      omega
    simpa only [saidOver_cons, hsaid, List.append_assoc] using hold'

/-- What the user sees is what is remembered. The reply of a turn is the last result that its
listener saw, and is added to the memory after the message; so over turns of any conversations the
memory holds, for each, the last of what was said in it. -/
theorem replies_remembered (a : Agent) :
    (∀ {conversation message : String} {outcome : Batch.Outcome} {t : Trace}
      {result : Except TurnError Unit}, a.Concludes conversation message outcome t result →
        Shown conversation message outcome.reply t result) ∧
    ∀ {n : Nat} {s s' : Stores} {turns : List Concluded}, s = .inLists n ∨ s = .inTables n →
      s.CanHold (2 * turns.length) → Conclusions a s turns s' → ∀ conversation,
        s'.readMessages conversation =
          Store.Memory.lastOf (max 1 n) (saidOver conversation turns) := by
  refine ⟨shown_of_concludes, fun {n s s' turns} hnew hroom hturns conversation => ?_⟩
  have hold := hold_of_conclusions hturns (Stores.hold_of_new hnew hroom) fun _ =>
    Nat.le_of_eq (Nat.zero_add _)
  rw [Nat.max_comm]
  exact hold.messages conversation

theorem replies_remembered_sample : ∃ (outcome : Batch.Outcome) (t : Trace) (s : Stores),
    sampleAgent.Concludes "c" "m" outcome t (.ok ()) ∧
    Shown "c" "m" outcome.reply t (.ok ()) ∧
    (Stores.inLists 9).CanHold (2 * [(⟨"c", "m", t, outcome⟩ : Concluded)].length) ∧
    Conclusions sampleAgent (.inLists 9) [⟨"c", "m", t, outcome⟩] s ∧
    s.readMessages "c" = Store.Memory.lastOf 9 (said "m" outcome.reply) := by
  obtain ⟨t, t', hrun, hclose, -, -, s, hs, -⟩ := turn_sample
  obtain ⟨outcome, hconcludes⟩ := concludes_of_handles (.carriedOut hrun hclose)
  have hturns : Conclusions sampleAgent (.inLists 9) [⟨"c", "m", t ++ t', outcome⟩] s :=
    .cons hconcludes hs.remembers (.nil s)
  obtain ⟨hshown, hmessages⟩ := replies_remembered sampleAgent
  have hread := hmessages (.inl rfl) trivial hturns "c"
  rw [saidOver_cons, if_pos rfl] at hread
  refine ⟨outcome, t ++ t', s, hconcludes, hshown hconcludes, trivial, hturns, hread.trans ?_⟩
  exact congrArg _ (List.append_nil _)

end Agent
end Switchboard
