import Switchboard.Batch.Outcome
import Switchboard.Proofs.Course
import Switchboard.Proofs.Stores

/-! The intents of a turn as they are run in order, to the end or to where the turn is cut short. -/
namespace Switchboard

theorem Request.OfRun.keeps {r : Request} (h : r.OfRun) : r.KeepsPending := by
  cases r <;> trivial

/-- A run asks nothing of the stores. -/
theorem Stores.serve_of_ofRun {t : Trace} (h : ∀ x ∈ t, x.1.OfRun) {s s' : Stores} :
    s.Serve t s' ↔ s' = s := by
  induction t with
  | nil => exact serve_nil
  | cons x t ih =>
    obtain ⟨hx, ht⟩ := List.forall_mem_cons.mp h
    obtain ⟨r, answer⟩ := x
    rw [serve_cons]
    cases r <;> first | exact absurd hx id | exact (iff_of_eq (true_and _)).trans (ih ht)

/-- The parts stand in the trace one after the other, with other exchanges between them. -/
inductive Trace.Follow : List Trace → Trace → Prop where
  | nil (t : Trace) : Follow [] t
  | cons (before part : Trace) {parts : List Trace} {t : Trace} : Follow parts t →
    Follow (part :: parts) (before ++ (part ++ t))

namespace Trace

variable {parts : List Trace} {part t t' : Trace}

theorem Follow.after (h : Follow parts t) (before : Trace) : Follow parts (before ++ t) := by
  cases h with
  | nil => exact .nil _
  | cons first part h =>
    rw [← List.append_assoc]
    exact .cons _ part h

theorem Follow.before (h : Follow parts t) (after : Trace) : Follow parts (t ++ after) := by
  induction h with
  | nil => exact .nil _
  | cons first part _ ih =>
    rw [List.append_assoc, List.append_assoc]
    exact .cons first part ih

theorem Follow.of_part (h : Follow parts t) (ht : t <:+: t') : Follow parts t' := by
  obtain ⟨before, after, rfl⟩ := ht
  exact (h.after before).before after

theorem Follow.cons_of_part (h : part <:+: t) (hparts : Follow parts t') :
    Follow (part :: parts) (t ++ t') := by
  obtain ⟨before, after, rfl⟩ := h
  rw [List.append_assoc, List.append_assoc]
  exact .cons before part (hparts.after after)

theorem Follow.within (h : Follow parts t) : ∀ part ∈ parts, part <:+: t := by
  induction h with
  | nil => exact List.forall_mem_nil _
  | @cons before part parts t _ ih =>
    have htail : t <:+: before ++ (part ++ t) := by
      rw [← List.append_assoc]
      exact (List.suffix_append ..).isInfix
    exact List.forall_mem_cons.mpr
      ⟨⟨before, t, List.append_assoc ..⟩, fun part hpart => (ih part hpart).trans htail⟩

end Trace

def Event.isSkillStart : Event → Bool
  | .skillStart .. => true
  | _ => false

namespace Batch

/-- The run of an intent in a turn, with its exchanges and how often its skill had asked in a row
before. Without an outcome it was cut short. -/
structure IntentRun where
  intent : Intent
  skill : Skill
  asks : Nat
  trace : Trace
  outcome : Option Engine.Outcome

namespace IntentRun

/-- The run is one of the engine, for the skill that the catalog gives the intent. -/
def Valid (e : Engine) (c : Catalog) (r : IntentRun) : Prop :=
  c.resolve r.intent.skill = .ok r.skill ∧
    ∃ left, (e.execute r.skill r.intent.task r.asks).After r.trace left ∧
      left.value? = r.outcome.map .ok

def failed (r : IntentRun) : Bool := r.outcome.any (·.failed)

/-- The run ended in a question, and no tool was called before it. -/
def Asking (r : IntentRun) : Prop := ∃ o, r.outcome = some o ∧ o.asking = true ∧ o.toolCalls = 0

/-- The event that opens the block of a run. -/
def opening (total number : Nat) (r : IntentRun) : Event :=
  .skillStart number total r.skill.name r.intent.task

/-- The events of a run after the one that opens its block. -/
def block (total number : Nat) (r : IntentRun) : List Event :=
  r.opening total number :: r.trace.events

/-- The exchange that brings a run the number of its skill's questions. -/
def seeded (conversation : String) (r : IntentRun) : Exchange :=
  ⟨.askStreak conversation r.skill.name, .ok r.asks⟩

/-- The exchange that keeps account of the questions after a run. -/
def counted (conversation : String) (r : IntentRun) (o : Engine.Outcome) : Exchange :=
  ⟨.setAskStreak conversation r.skill.name (if o.asking then o.asks else 0), .ok ()⟩

end IntentRun

def blocks (total : Nat) : Nat → List IntentRun → List Event
  | _, [] => []
  | number, r :: runs => r.block total number ++ blocks total (number + 1) runs

variable {e : Engine} {c : Catalog} {conversation : String} {total number : Nat} {α β : Type}
  {t : Trace} {i : Intent}

theorem IntentRun.Valid.ofRun {r : IntentRun} (h : r.Valid e c) : ∀ x ∈ r.trace, x.1.OfRun := by
  obtain ⟨-, left, hafter, -⟩ := h
  exact (Engine.execute_only r.asks).of_mem hafter

theorem IntentRun.Valid.run {r : IntentRun} {o : Engine.Outcome} (h : r.Valid e c)
    (ho : r.outcome = some o) : (e.execute r.skill r.intent.task r.asks).Run r.trace (.ok o) := by
  obtain ⟨-, left, hafter, hleft⟩ := h
  rw [ho] at hleft
  cases Program.eq_done_of_value? hleft
  exact hafter

/-- What a run tells opens no block and ends no turn. -/
theorem IntentRun.Valid.told {r : IntentRun} (h : r.Valid e c) :
    ∀ event ∈ r.trace.events, event.OfRun :=
  fun event hm => h.ofRun (.taken event) (Trace.mem_events.mp hm)

theorem IntentRun.Valid.countP_isError {r : IntentRun} (h : r.Valid e c)
    (ht : r.trace.Undisturbed c) :
    r.trace.events.countP Event.isError = if r.failed then 1 else 0 := by
  obtain ⟨-, left, hafter, hleft⟩ := h
  unfold failed
  cases ho : r.outcome with
  | some o =>
    rw [ho] at hleft
    cases Program.eq_done_of_value? hleft
    obtain ⟨o', ho', hcount⟩ := Engine.ok_of_execute hafter ht.attended ht.prompted
    cases ho'
    exact hcount
  | none =>
    rw [ho] at hleft
    refine List.countP_eq_zero.mpr fun event hm => ?_
    cases event with
    | error message =>
      exact absurd hm (Dialogue.not_mem_events_of_errorLast (Engine.execute_errorLast r.asks) hafter
        (Program.not_isDone_of_value? hleft) message)
    | _ => exact Bool.false_ne_true

/-- How far one intent of a turn comes: to an end with a value, or without one to where the turn is
cut short. -/
inductive Part (e : Engine) (c : Catalog) (conversation : String) (total number : Nat)
    (i : Intent) : Option IntentRun → Trace → Option (Except TurnError Engine.Outcome) → Prop where
  | unresolved {err : TurnError} : c.resolve i.skill = .error err →
    Part e c conversation total number i none [] (some (.error err))
  | unopened : Part e c conversation total number i none [] none
  | unseeded {r : IntentRun} : r.intent = i → r.Valid e c → r.trace = [] → r.outcome = none →
    Part e c conversation total number i (some r) [.taken (r.opening total number)] none
  | cut {r : IntentRun} : r.intent = i → r.Valid e c →
    Part e c conversation total number i (some r)
      (.taken (r.opening total number) :: r.seeded conversation :: r.trace) none
  | ran {r : IntentRun} {o : Engine.Outcome} : r.intent = i → r.Valid e c → r.outcome = some o →
    Part e c conversation total number i (some r)
      (.taken (r.opening total number) :: r.seeded conversation ::
        (r.trace ++ [r.counted conversation o])) (some (.ok o))

/-- How far the intents of a turn come, one after the other. -/
inductive Loop (e : Engine) (c : Catalog) (conversation : String) (total : Nat) :
    Nat → List Intent → Tally → List IntentRun → Trace → Option (Except TurnError (Tally × Nat)) →
    Prop where
  | finished (number : Nat) (tally : Tally) :
    Loop e c conversation total number [] tally [] [] (some (.ok (tally, 0)))
  | saved (number : Nat) (i : Intent) (rest : List Intent) {tally : Tally} : tally.stopped = true →
    Loop e c conversation total number (i :: rest) tally []
      [⟨.replacePending conversation (i :: rest), .ok ()⟩] (some (.ok (tally, rest.length + 1)))
  | unsaved (number : Nat) (i : Intent) (rest : List Intent) {tally : Tally} :
    tally.stopped = true → Loop e c conversation total number (i :: rest) tally [] [] none
  | failed {number : Nat} {i : Intent} (rest : List Intent) {tally : Tally} {t : Trace}
    {err : TurnError} : tally.stopped = false →
    Part e c conversation total number i none t (some (.error err)) →
    Loop e c conversation total number (i :: rest) tally [] t (some (.error err))
  | cut {number : Nat} {i : Intent} (rest : List Intent) {tally : Tally} {run : Option IntentRun}
    {t : Trace} : tally.stopped = false → Part e c conversation total number i run t none →
    Loop e c conversation total number (i :: rest) tally run.toList t none
  | ran {number : Nat} {i : Intent} {rest : List Intent} {tally : Tally} {r : IntentRun}
    {o : Engine.Outcome} {runs : List IntentRun} {t t' : Trace}
    {ended : Option (Except TurnError (Tally × Nat))} : tally.stopped = false →
    Part e c conversation total number i (some r) t (some (.ok o)) →
    Loop e c conversation total (number + 1) rest (tally.add i.task o) runs t' ended →
    Loop e c conversation total number (i :: rest) tally (r :: runs) (t ++ t') ended

theorem after_tell {event : Event} {f : Unit → Work α} {left : Dialogue (Except TurnError α)}
    (h : (tell event >>= f).run.After t left) (ha : t.Attended) :
    (t = [] ∧ ¬ left.IsDone) ∨
      ∃ t' : Trace, t = .taken event :: t' ∧ (f ()).run.After t' left ∧ t'.Attended :=
  Dialogue.after_emit h ha

/-- Work stops within its first part, or that part fails, or the rest goes on from its value. -/
theorem after_work {x : Work α} {f : α → Work β} {left : Dialogue (Except TurnError β)}
    (h : (x >>= f).run.After t left) :
    (∃ d, x.run.After t d ∧ ¬ d.IsDone ∧ ¬ left.IsDone) ∨
      (∃ err, x.run.Run t (.error err) ∧ left = .done (.error err)) ∨
      ∃ t₁ a t₂, t = t₁ ++ t₂ ∧ x.run.Run t₁ (.ok a) ∧ (f a).run.After t₂ left := by
  rcases Program.after_bind.mp h with ⟨d, hd, hgoing, rfl⟩ | ⟨t₁, r, t₂, rfl, hd, hf⟩
  · exact .inl ⟨d, hd, hgoing, Program.not_isDone_bind hgoing⟩
  · cases r with
    | error err =>
      obtain ⟨rfl, rfl⟩ := Program.after_done.mp hf
      rw [List.append_nil]
      exact .inr (.inl ⟨err, hd, rfl⟩)
    | ok a => exact .inr (.inr ⟨t₁, a, t₂, rfl, hd, hf⟩)

theorem run_work {x : Work α} {f : α → Work β} {t' : Trace} {a : α} {r : Except TurnError β}
    (hx : x.run.Run t (.ok a)) (hf : (f a).run.Run t' r) : (x >>= f).run.Run (t ++ t') r :=
  Program.Run.bind hx hf

theorem run_work_error {x : Work α} {f : α → Work β} {err : TurnError}
    (hx : x.run.Run t (.error err)) : (x >>= f).run.Run t (.error err) :=
  Program.Run.after_bind hx

theorem tell_run (event : Event) : (tell event).run.Run [Exchange.taken event] (.ok ()) :=
  Program.run_ask.mpr ⟨true, [], rfl, Program.run_done.mpr ⟨rfl, rfl⟩⟩

/-- An intent is run between the two requests that keep account of its skill's questions. -/
theorem runIntent_run {r : IntentRun} {o : Engine.Outcome}
    (hskill : c.resolve r.intent.skill = .ok r.skill)
    (hrun : (e.execute r.skill r.intent.task r.asks).Run r.trace (.ok o)) :
    (runIntent e c conversation total number r.intent).run.Run
      (Exchange.taken (r.opening total number) :: r.seeded conversation ::
        (r.trace ++ [r.counted conversation o])) (.ok o) := by
  unfold runIntent
  rw [hskill]
  refine run_work (Program.run_done.mpr ⟨rfl, rfl⟩) ?_
  refine run_work (tell_run _) ?_
  refine Program.run_ask.mpr ⟨_, _, rfl, ?_⟩
  refine run_work hrun ?_
  exact Program.run_ask.mpr ⟨_, _, rfl, Program.run_done.mpr ⟨rfl, rfl⟩⟩

theorem part_of_after {left : Dialogue (Except TurnError Engine.Outcome)}
    (h : (runIntent e c conversation total number i).run.After t left) (ht : t.Undisturbed c) :
    ∃ run, Part e c conversation total number i run t left.value? := by
  unfold runIntent at h
  cases hskill : c.resolve i.skill with
  | error err =>
    rw [hskill] at h
    obtain ⟨rfl, rfl⟩ := Program.after_done.mp h
    exact ⟨none, .unresolved hskill⟩
  | ok skill =>
    rw [hskill] at h
    change (tell (.skillStart number total skill.name i.task) >>= _).run.After t left at h
    rcases after_tell h ht.attended with ⟨rfl, hleft⟩ | ⟨t, rfl, hseed, -⟩
    · rw [Program.value?_of_not_isDone hleft]
      exact ⟨none, .unopened⟩
    have ht := ht.tail
    rcases Program.after_ask.mp hseed with ⟨rfl, rfl⟩ | ⟨asks, t, rfl, hrun⟩
    · have hvalid : IntentRun.Valid e c ⟨i, skill, 0, [], none⟩ :=
        ⟨hskill, _, .here _, Program.value?_of_not_isDone (Engine.execute_not_isDone 0)⟩
      exact ⟨_, .unseeded rfl hvalid rfl rfl⟩
    obtain ⟨asks, rfl⟩ := ht.head
    have ht := ht.tail
    change (attempt (e.execute skill i.task asks) >>= _).run.After t left at hrun
    rcases after_work hrun with ⟨d, hd, hgoing, hleft⟩ | ⟨err, hd, -⟩ | ⟨t₁, o, t₂, rfl, hd, hset⟩
    · have hvalid : IntentRun.Valid e c ⟨i, skill, asks, t, none⟩ :=
        ⟨hskill, d, hd, Program.value?_of_not_isDone hgoing⟩
      rw [Program.value?_of_not_isDone hleft]
      exact ⟨_, .cut rfl hvalid⟩
    · obtain ⟨o, ho, -⟩ := Engine.ok_of_execute hd ht.attended ht.prompted
      cases ho
    have hvalid : IntentRun.Valid e c ⟨i, skill, asks, t₁, some o⟩ := ⟨hskill, _, hd, rfl⟩
    -- The run has its outcome, but the turn may still be cut short before it is accounted for.
    rcases Program.after_ask.mp hset with ⟨rfl, rfl⟩ | ⟨set, t, rfl, hend⟩
    · rw [List.append_nil]
      exact ⟨_, .cut rfl hvalid⟩
    · cases ((Trace.undisturbed_append.mp ht).2.head : set = .ok ())
      obtain ⟨rfl, rfl⟩ := Program.after_done.mp hend
      exact ⟨_, .ran rfl hvalid rfl⟩

/-- The intents of a turn, run in order, come as far as this. -/
theorem loop_of_after {intents : List Intent} {tally : Tally}
    {left : Dialogue (Except TurnError (Tally × Nat))}
    (h : (runIntents e c conversation total number intents tally).run.After t left)
    (ht : t.Undisturbed c) :
    ∃ runs, Loop e c conversation total number intents tally runs t left.value? := by
  induction intents generalizing number tally t with
  | nil =>
    obtain ⟨rfl, rfl⟩ := Program.after_done.mp h
    exact ⟨[], .finished number tally⟩
  | cons i rest ih =>
    unfold runIntents at h
    split at h
    next hstopped =>
      rcases Program.after_ask.mp h with ⟨rfl, rfl⟩ | ⟨saved, t, rfl, hend⟩
      · exact ⟨[], .unsaved number i rest hstopped⟩
      · cases (ht.head : saved = .ok ())
        obtain ⟨rfl, rfl⟩ := Program.after_done.mp hend
        exact ⟨[], .saved number i rest hstopped⟩
    next hgoing =>
      have hgoing : tally.stopped = false := by simpa using hgoing
      rcases after_work h with ⟨d, hd, hpart, hleft⟩ | ⟨err, hd, rfl⟩ | ⟨t₁, o, t₂, rfl, hd, hrest⟩
      · obtain ⟨run, hrun⟩ := part_of_after hd ht
        rw [Program.value?_of_not_isDone hpart] at hrun
        rw [Program.value?_of_not_isDone hleft]
        exact ⟨_, .cut rest hgoing hrun⟩
      · obtain ⟨run, hrun⟩ := part_of_after hd ht
        cases hrun with
        | unresolved herr => exact ⟨[], .failed rest hgoing (.unresolved herr)⟩
      · obtain ⟨ht₁, ht₂⟩ := Trace.undisturbed_append.mp ht
        obtain ⟨run, hrun⟩ := part_of_after hd ht₁
        obtain ⟨runs, hloop⟩ := ih hrest ht₂
        cases hrun with
        | ran hi hvalid ho => exact ⟨_, .ran hgoing (.ran hi hvalid ho) hloop⟩

section
variable {run : Option IntentRun} {out : Option (Except TurnError Engine.Outcome)}

theorem events_of_part (h : Part e c conversation total number i run t out) :
    t.events = blocks total number run.toList := by
  cases h with
  | unresolved | unopened => rfl
  | @unseeded r _ _ htrace =>
    change _ = r.opening total number :: r.trace.events ++ []
    rw [htrace]
    rfl
  | cut => exact (List.append_nil _).symm
  | @ran r o =>
    change r.opening total number :: Trace.events (r.trace ++ [r.counted conversation o]) = _
    rw [Trace.events_append]
    rfl

/-- The run is the engine's for the intent, and its exchanges stand together. -/
theorem valid_of_part (h : Part e c conversation total number i run t out) :
    ∀ r ∈ run.toList, r.intent = i ∧ r.Valid e c ∧ r.trace <:+: t := by
  cases h with
  | unresolved | unopened => exact List.forall_mem_nil _
  | unseeded hi hvalid htrace =>
    rw [Option.toList_some, List.forall_mem_singleton, htrace]
    exact ⟨hi, hvalid, List.nil_infix⟩
  | @cut r hi hvalid =>
    refine List.forall_mem_singleton.mpr ⟨hi, hvalid, ?_⟩
    exact ⟨[.taken (r.opening total number), r.seeded conversation], [], by simp⟩
  | @ran r o hi hvalid =>
    refine List.forall_mem_singleton.mpr ⟨hi, hvalid, ?_⟩
    exact ⟨[.taken (r.opening total number), r.seeded conversation],
      [r.counted conversation o], by simp⟩

/-- An intent that has been run leaves the pending intents as they are. -/
theorem pending_of_part {o : Engine.Outcome} {s s' : Stores}
    (h : Part e c conversation total number i run t (some (.ok o))) (hs : s.Serve t s') :
    s'.getIntents conversation = s.getIntents conversation := by
  cases h with
  | @ran r o hi hvalid =>
    have hkeeps : ∀ x ∈ r.trace ++ [r.counted conversation o], x.1.KeepsPending :=
      List.forall_mem_append.mpr ⟨fun x hx => (hvalid.ofRun x hx).keeps,
        List.forall_mem_singleton.mpr trivial⟩
    exact Stores.getIntents_of_serve hs
      (List.forall_mem_cons.mpr ⟨trivial, List.forall_mem_cons.mpr ⟨trivial, hkeeps⟩⟩) conversation

end

variable {intents : List Intent} {tally : Tally} {runs : List IntentRun}
  {ended : Option (Except TurnError (Tally × Nat))}

/-- The events are the blocks of the runs, and nothing comes between them. -/
theorem events_of_loop (h : Loop e c conversation total number intents tally runs t ended) :
    t.events = blocks total number runs := by
  induction h with
  | finished | saved | unsaved => rfl
  | failed rest _ hpart => exact events_of_part hpart
  | cut rest _ hpart => exact events_of_part hpart
  | ran _ hpart _ ih =>
    have hblock := events_of_part hpart
    rw [Option.toList_some, blocks, blocks, List.append_nil] at hblock
    rw [Trace.events_append, hblock, ih, blocks]

/-- The runs of a turn: each is the engine's, their exchanges follow one another, they are of the
first intents in order, and only the last of them may be cut short. -/
structure Runs (e : Engine) (c : Catalog) (intents : List Intent) (runs : List IntentRun)
    (t : Trace) : Prop where
  valid : ∀ r ∈ runs, r.Valid e c
  follow : Trace.Follow (runs.map (·.trace)) t
  order : runs.map (·.intent) <+: intents
  whole : ∀ r ∈ runs.dropLast, r.outcome ≠ none

theorem Runs.within (h : Runs e c intents runs t) : ∀ r ∈ runs, r.trace <:+: t :=
  fun _ hr => h.follow.within _ (List.mem_map_of_mem hr)

theorem Runs.nil (e : Engine) (c : Catalog) (intents : List Intent) (t : Trace) :
    Runs e c intents [] t where
  valid := List.forall_mem_nil _
  follow := .nil t
  order := List.nil_prefix
  whole := List.forall_mem_nil _

theorem Runs.of_part {t' : Trace} (h : Runs e c intents runs t) (ht : t <:+: t') :
    Runs e c intents runs t' :=
  ⟨h.valid, h.follow.of_part ht, h.order, h.whole⟩

theorem Runs.cons {r : IntentRun} {t' : Trace} (hvalid : r.Valid e c) (hwithin : r.trace <:+: t)
    (hwhole : r.outcome ≠ none) (h : Runs e c intents runs t') :
    Runs e c (r.intent :: intents) (r :: runs) (t ++ t') := by
  refine ⟨List.forall_mem_cons.mpr ⟨hvalid, h.valid⟩, .cons_of_part hwithin h.follow,
    (List.prefix_cons_inj _).mpr h.order, ?_⟩
  cases runs with
  | nil => exact List.forall_mem_nil _
  | cons r' runs => exact List.forall_mem_cons.mpr ⟨hwhole, h.whole⟩

theorem runs_of_loop (h : Loop e c conversation total number intents tally runs t ended) :
    Runs e c intents runs t := by
  induction h with
  | finished | saved | unsaved | failed => exact .nil ..
  | @cut number i rest tally run t _ hpart =>
    cases run with
    | none => exact .nil ..
    | some r =>
      obtain ⟨rfl, hvalid, hwithin⟩ := valid_of_part hpart r List.mem_cons_self
      have hfollow : Trace.Follow [r.trace] t := by
        have hself := Trace.Follow.cons_of_part hwithin (.nil [])
        rwa [List.append_nil] at hself
      exact ⟨List.forall_mem_singleton.mpr hvalid, hfollow,
        List.prefix_append [_] rest, List.forall_mem_nil _⟩
  | @ran number i rest tally r o runs t t' ended _ hpart _ ih =>
    obtain ⟨rfl, hvalid, hwithin⟩ := valid_of_part hpart r List.mem_cons_self
    cases hpart with
    | ran _ _ ho =>
      have hwhole : r.outcome ≠ none := ho ▸ Option.some_ne_none o
      exact .cons hvalid hwithin hwhole ih

/-- No run is cut short unless the turn is. -/
theorem outcomes_of_loop (h : Loop e c conversation total number intents tally runs t ended)
    (hended : ended ≠ none) : ∀ r ∈ runs, r.outcome ≠ none := by
  induction h with
  | finished | saved | failed => exact List.forall_mem_nil _
  | unsaved | cut => exact absurd rfl hended
  | @ran _ _ _ _ r o _ _ _ _ _ hpart _ ih =>
    cases hpart with
    | ran _ _ ho =>
      have hwhole : r.outcome ≠ none := ho ▸ Option.some_ne_none o
      exact List.forall_mem_cons.mpr ⟨hwhole, ih hended⟩

/-- Only a skill that is missing, with the fallback, ends the intents with an error. -/
theorem error_of_loop {err : TurnError}
    (h : Loop e c conversation total number intents tally runs t (some (.error err))) :
    err = .noFallback ∧ c.fallback? = none := by
  generalize hended : some (Except.error err) = ended at h
  induction h with
  | finished | saved | unsaved | cut => cases hended
  | failed rest _ hpart =>
    cases hended
    cases hpart with
    | unresolved herr =>
      unfold Catalog.resolve at herr
      split at herr
      · cases herr
      next hnone =>
        cases herr
        exact ⟨rfl, (Option.or_eq_none_iff.mp hnone).2⟩
  | ran _ _ _ ih => exact ih hended

theorem stopped_add (tally : Tally) (task : String) (o : Engine.Outcome) :
    (tally.add task o).stopped = (tally.stopped || o.asking && decide (o.toolCalls = 0)) := by
  unfold Tally.add
  dsimp only
  split
  next h => simp [h]
  next h =>
    have hno : (o.asking && decide (o.toolCalls = 0)) = false := by simpa using h
    rw [hno, Bool.or_false]
    split <;> rfl

/-- What was run and what is put off together are all intents, in their order, and intents are put
off only after a run that asked without calling a tool. -/
theorem pending_of_loop {tally' : Tally} {saved : Nat} {s s' : Stores}
    (h : Loop e c conversation total number intents tally runs t (some (.ok (tally', saved))))
    (hs : s.Serve t s') (hnone : s.getIntents conversation = []) :
    runs.map (·.intent) ++ s'.getIntents conversation = intents ∧
      (s'.getIntents conversation ≠ [] →
        (runs = [] ∧ tally.stopped = true) ∨ ∃ r, runs.getLast? = some r ∧ r.Asking) := by
  generalize hended : some (Except.ok (tally', saved)) = ended at h
  induction h generalizing s with
  | unsaved | failed | cut => cases hended
  | finished =>
    cases Stores.serve_nil.mp hs
    rw [hnone]
    exact ⟨rfl, fun h => absurd rfl h⟩
  | saved number i rest hstopped =>
    cases Stores.serve_nil.mp (Stores.serve_cons.mp hs).2
    exact ⟨Stores.getIntents_replaceIntents .., fun _ => .inl ⟨rfl, hstopped⟩⟩
  | @ran number i rest tally r o runs t t' ended hgoing hpart hrest ih =>
    obtain ⟨s₁, hs₁, hs₂⟩ := Stores.serve_append.mp hs
    obtain ⟨hall, hasked⟩ := ih hs₂ ((pending_of_part hpart hs₁).trans hnone) hended
    cases hpart with
    | ran hi hvalid ho =>
      constructor
      · rw [List.map_cons, List.cons_append, hall, hi]
      · intro hne
        rcases hasked hne with ⟨rfl, hstopped⟩ | ⟨r', hr', hasking⟩
        · -- No run came after this one, so it is this one that stopped the intents.
          refine .inr ⟨r, rfl, o, ho, ?_⟩
          rw [stopped_add, hgoing] at hstopped
          simpa using hstopped
        · refine .inr ⟨r', ?_, hasking⟩
          rw [List.getLast?_cons, hr']
          rfl

theorem filter_isSkillStart_blocks (h : ∀ r ∈ runs, r.Valid e c) :
    (blocks total number runs).filter Event.isSkillStart =
      runs.mapIdx fun n r => r.opening total (number + n) := by
  induction runs generalizing number with
  | nil => rfl
  | cons r runs ih =>
    obtain ⟨hr, hruns⟩ := List.forall_mem_cons.mp h
    have hblock : r.trace.events.filter Event.isSkillStart = [] := by
      refine List.filter_eq_nil_iff.mpr fun event hm => ?_
      have hrun := hr.told event hm
      cases event <;> first | exact absurd hrun id | exact Bool.false_ne_true
    have hopening : (r.opening total number).isSkillStart = true := rfl
    rw [blocks, IntentRun.block, List.cons_append, List.filter_cons_of_pos hopening,
      List.filter_append, hblock, ih hruns, List.mapIdx_cons]
    simp only [Nat.add_right_comm, Nat.add_assoc, List.nil_append, Nat.add_zero]

theorem done_not_mem_blocks (h : ∀ r ∈ runs, r.Valid e c) :
    Event.done ∉ blocks total number runs := by
  induction runs generalizing number with
  | nil => exact nofun
  | cons r runs ih =>
    obtain ⟨hr, hruns⟩ := List.forall_mem_cons.mp h
    intro hm
    rcases List.mem_append.mp hm with hm | hm
    · rw [IntentRun.block] at hm
      rcases List.mem_cons.mp hm with hm | hm
      · cases hm
      · exact hr.told _ hm
    · exact ih hruns hm

theorem countP_isError_blocks (h : ∀ r ∈ runs, r.Valid e c ∧ r.trace.Undisturbed c) :
    (blocks total number runs).countP Event.isError = runs.countP IntentRun.failed := by
  induction runs generalizing number with
  | nil => rfl
  | cons r runs ih =>
    obtain ⟨⟨hr, ht⟩, hruns⟩ := List.forall_mem_cons.mp h
    have hopening : ¬ (r.opening total number).isError = true := Bool.false_ne_true
    rw [blocks, IntentRun.block, List.cons_append, List.countP_cons_of_neg hopening,
      List.countP_append, hr.countP_isError ht, ih hruns, List.countP_cons]
    exact Nat.add_comm ..

end Batch
end Switchboard
