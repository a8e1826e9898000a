import Switchboard.Proofs.FirstItems
import Switchboard.Proofs.TurnEvents

/-! New intents merged with those put off before, and what becomes of them over the turns of a
conversation. -/
namespace Switchboard.Intent

theorem merge_eq_addNew (new pending : List Intent) :
    merge new pending = addNew Intent.skill new pending := rfl

/-- New intents are never touched. Behind them come pending ones in their order, each the first of
its skill and the only one, for every skill that is pending and not among the new ones. It makes no
difference whether lists of pending intents are merged one after the other or at once, and a list
that is merged already adds nothing. -/
theorem merge_laws (new p q : List Intent) :
    (∃ kept, merge new p = new ++ kept ∧ kept.Sublist p ∧ (kept.map (·.skill)).Nodup ∧
      ∀ i ∈ kept, i.skill ∉ new.map (·.skill) ∧ FirstWith (·.skill = i.skill) p i) ∧
    (∀ i ∈ p, i.skill ∈ (merge new p).map (·.skill)) ∧
    merge new (p ++ q) = merge (merge new p) q ∧
    merge (merge new p) p = merge new p := by
  simp only [merge_eq_addNew]
  have hmerged : ∀ i ∈ p, i.skill ∈ (addNew Intent.skill new p).map (·.skill) :=
    fun i hi => mem_map_addNew.mpr (.inr (List.mem_map_of_mem hi))
  exact ⟨exists_added Intent.skill new p, hmerged, addNew_append, addNew_eq_self hmerged⟩

end Switchboard.Intent

namespace Switchboard.Agent
open Batch (IntentRun)

variable {a : Agent} {conversation message : String} {t : Trace} {s s' : Stores}

/-- A turn with its exchanges and with the stores before and after it. -/
structure Turn where
  message : String
  trace : Trace
  before : Stores
  after : Stores

/-- The turns of a conversation. Each finds the intents that the one before it put off, whatever
other conversations have left in the stores, and nothing disturbs it. -/
inductive Turns (a : Agent) (conversation : String) : Stores → List Turn → Prop where
  | nil (s : Stores) : Turns a conversation s []
  | cons {s : Stores} {turn : Turn} {rest : List Turn} :
    turn.before.getIntents conversation = s.getIntents conversation →
    (a.turn conversation turn.message).Run turn.trace () → turn.trace.Attended →
    turn.trace.Prompted a.catalog → turn.before.Serve turn.trace turn.after →
    Turns a conversation turn.after rest → Turns a conversation s (turn :: rest)

/-- What a turn did with its intents: those it ran and those it put off are those of its message and
those that were pending. -/
structure Turn.Accounted (a : Agent) (conversation : String) (pending : List Intent) (turn : Turn)
    (runs : List IntentRun) : Prop where
  valid : ∀ r ∈ runs, r.Valid a.engine a.catalog ∧ r.trace <:+: turn.trace ∧ r.outcome ≠ none
  follow : Trace.Follow (runs.map (·.trace)) turn.trace
  starts : turn.trace.events.filter Event.isSkillStart = runs.mapIdx fun n r =>
    .skillStart (n + 1) (a.intentsOf turn.message turn.trace).length r.skill.name r.intent.task
  balance : runs.map (·.intent) ++ turn.after.getIntents conversation =
    Intent.merge (turn.trace.routed a.catalog turn.message) pending
  asking : turn.after.getIntents conversation ≠ [] → ∃ r, runs.getLast? = some r ∧ r.Asking

/-- No intent is lost over the turns: what one turn puts off is pending in the next. -/
inductive Accounts (a : Agent) (conversation : String) : List Intent → List Turn → Prop where
  | nil (pending : List Intent) : Accounts a conversation pending []
  | cons {pending : List Intent} {turn : Turn} {runs : List IntentRun} {rest : List Turn} :
    turn.Accounted a conversation pending runs →
    Accounts a conversation (turn.after.getIntents conversation) rest →
    Accounts a conversation pending (turn :: rest)

theorem pending_of_popped {pending : List Intent} (hs : s.Serve (popped conversation pending) s') :
    pending = s.getIntents conversation ∧ s'.getIntents conversation = [] := by
  cases pending with
  | nil =>
    obtain ⟨hget, hs⟩ := Stores.serve_cons.mp hs
    cases Stores.serve_nil.mp hs
    have hnone := Except.ok.inj hget
    exact ⟨hnone, hnone.symm⟩
  | cons i rest =>
    obtain ⟨hget, hs⟩ := Stores.serve_cons.mp hs
    cases Stores.serve_nil.mp (Stores.serve_cons.mp hs).2
    exact ⟨Except.ok.inj hget, Stores.getIntents_clearIntents ..⟩

/-- A turn has the intents that were pending before it, and leaves none of them in the store. -/
theorem pending_of_gathered {intents : List Intent}
    (h : a.Gathered conversation message t intents) (hs : s.Serve t s') (event : Event)
    (rest : Trace) :
    Trace.pending (.taken event :: (t ++ rest)) = s.getIntents conversation ∧
      s'.getIntents conversation = [] := by
  cases h with
  | intro messages reply pending hsearch =>
    obtain ⟨s₁, hs₁, hs⟩ := Stores.serve_append.mp hs
    have hs := (Stores.serve_cons.mp (Stores.serve_cons.mp hs).2).2
    obtain ⟨s₂, hs₂, hs⟩ := Stores.serve_append.mp hs
    obtain ⟨hpending, hnone⟩ := pending_of_popped hs₂
    -- Nothing but the pop touches them: before it the turn only looks things up, after it the
    -- message is remembered.
    have hbefore := Stores.getIntents_of_serve hs₁ (fun x hx => (hsearch x hx).keeps) conversation
    have hkeeps : ∀ x ∈ [(⟨.appendMemory conversation ⟨.user, message⟩, .ok ()⟩ : Exchange)],
        x.1.KeepsPending := List.forall_mem_singleton.mpr trivial
    have hafter := Stores.getIntents_of_serve hs hkeeps conversation
    refine ⟨?_, hafter.trans hnone⟩
    rw [pending_of_findings hsearch]
    exact hpending.trans hbefore

/-- With a fallback skill the intents of a turn come to their end, and are all run or put off. -/
theorem pending_of_executed {intents : List Intent} {runs : List IntentRun}
    {r : Except TurnError Batch.Outcome}
    (h : Batch.Executed a.engine a.catalog conversation intents runs t (some r))
    (hfallback : a.catalog.fallback? ≠ none) (hs : s.Serve t s')
    (hnone : s.getIntents conversation = []) :
    runs.map (·.intent) ++ s'.getIntents conversation = intents ∧
      (s'.getIntents conversation ≠ [] → ∃ r, runs.getLast? = some r ∧ r.Asking) := by
  generalize hout : some r = out at h
  cases h with
  | unopened | cut => cases hout
  | failed hloop => exact absurd (Batch.error_of_loop hloop).2 hfallback
  | concluded hloop hconclude =>
    have hkeeps := ((Batch.conclude_only _).mono fun _ => Request.OfConclusion.keeps).of_mem
      hconclude
    obtain ⟨s₁, hs₁, hs⟩ := Stores.serve_append.mp hs
    obtain ⟨s₂, hs₂, hs⟩ := Stores.serve_append.mp hs
    have hnone₁ := Stores.getIntents_of_serve hs₁
      (Batch.forall_mem_opening (fun _ => trivial) _) conversation
    have hafter := Stores.getIntents_of_serve hs hkeeps conversation
    obtain ⟨hall, hasked⟩ := Batch.pending_of_loop hloop hs₂ (hnone₁.trans hnone)
    rw [hafter]
    exact ⟨hall, fun hne => (hasked hne).resolve_left fun hstopped => nomatch hstopped.2⟩

/-- What a turn carries out is what it had: the intents that it runs and those that it puts off. -/
theorem pending_of_carried {intents : List Intent} {runs : List IntentRun}
    {result : Except TurnError Unit} (t' : Trace)
    (h : a.Carried conversation message intents runs t (some result))
    (hfallback : a.catalog.fallback? ≠ none) (hs : s.Serve t s') :
    Trace.pending (t ++ t') = s.getIntents conversation ∧
      runs.map (·.intent) ++ s'.getIntents conversation = a.intentsOf message (t ++ t') ∧
      (s'.getIntents conversation ≠ [] → ∃ r, runs.getLast? = some r ∧ r.Asking) := by
  generalize hout : some result = out at h
  cases h with
  | unheard | gathering | cut => cases hout
  | @executed _ _ t₁ t₂ t₃ r left hgathered hexecuted hkeep =>
    obtain ⟨s₁, hs₁, hs⟩ := Stores.serve_append.mp (Stores.serve_cons.mp hs).2
    obtain ⟨s₂, hs₂, hs₃⟩ := Stores.serve_append.mp hs
    rw [List.cons_append, List.append_assoc, hgathered.intentsOf_eq]
    obtain ⟨hpending, hnone⟩ := pending_of_gathered hgathered hs₁ (.planning startNotice)
      (t₂ ++ t₃ ++ t')
    refine ⟨hpending, ?_⟩
    have hkeeps : ∀ x ∈ t₃, x.1.KeepsPending := fun x hx => ((keep_only r).of_mem hkeep x hx).2
    rw [Stores.getIntents_of_serve hs₃ hkeeps]
    exact pending_of_executed hexecuted hfallback hs₂ hnone

theorem accounted_of_run {turn : Turn} (hfallback : a.catalog.fallback? ≠ none)
    (h : (a.turn conversation turn.message).Run turn.trace ()) (ha : turn.trace.Attended)
    (hc : turn.trace.Prompted a.catalog) (hs : turn.before.Serve turn.trace turn.after) :
    ∃ runs, turn.Accounted a conversation (turn.before.getIntents conversation) runs := by
  obtain ⟨message, t, s, s'⟩ := turn
  dsimp only at h ha hc hs
  obtain ⟨t₁, result, t₂, rfl, hrun, hclose⟩ := Program.run_bind.mp h
  have ht : Trace.Undisturbed a.catalog (t₁ ++ t₂) := ⟨ha, hc, Stores.storesWork_of_serve hs⟩
  obtain ⟨intents, runs, hcarried, haccount⟩ := account_of_run hrun hclose ht
  obtain ⟨s₁, hs₁, hs₂⟩ := Stores.serve_append.mp hs
  obtain ⟨hpending, hbalance, hasking⟩ := pending_of_carried t₂ hcarried hfallback hs₁
  have hafter := Stores.getIntents_of_serve hs₂
    (fun x hx => ((closeTurn_only result).of_mem hclose x hx).keeps) conversation
  obtain ⟨ht₁, -⟩ := Trace.undisturbed_append.mp ht
  have hwhole : result ≠ .error .cancelled := by
    rintro rfl
    cases error_of_carried hcarried ht₁
  rw [← hafter] at hbalance hasking
  refine ⟨runs, fun r hr => ⟨haccount.inOrder.valid r hr, haccount.inOrder.within r hr,
    haccount.whole hwhole r hr⟩, haccount.inOrder.follow, haccount.starts, ?_, hasking⟩
  rw [hbalance, intentsOf, hpending]

/-- Every turn accounts for its intents, and for those that the turn before it put off. -/
theorem turns_accounted {turns : List Turn} (h : Turns a conversation s turns)
    (hfallback : a.catalog.fallback? ≠ none) :
    Accounts a conversation (s.getIntents conversation) turns := by
  induction h with
  | nil => exact .nil _
  | cons hbefore hrun ha hc hs _ ih =>
    obtain ⟨runs, haccounted⟩ := accounted_of_run hfallback hrun ha hc hs
    rw [hbefore] at haccounted
    exact .cons haccounted ih

theorem turns_accounted_sample : ∃ turns, Turns sampleAgent "c" (.inLists 9) turns ∧
    turns ≠ [] ∧ sampleAgent.catalog.fallback? ≠ none ∧ Accounts sampleAgent "c" [] turns := by
  obtain ⟨t, t', hrun, hclose, ha, hc, s, hs, -⟩ := turn_sample
  have hturn : (sampleAgent.turn "c" "m").Run (t ++ t') () := hrun.bind hclose
  have hturns : Turns sampleAgent "c" (.inLists 9) [⟨"m", t ++ t', .inLists 9, s⟩] :=
    .cons rfl hturn ha hc hs (.nil s)
  have hfallback : sampleAgent.catalog.fallback? ≠ none := by decide
  exact ⟨_, hturns, List.cons_ne_nil _ _, hfallback, turns_accounted hturns hfallback⟩

end Switchboard.Agent
