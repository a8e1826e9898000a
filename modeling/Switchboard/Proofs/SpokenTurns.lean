import Switchboard.Proofs.PlainWords

/-! What a turn says to its user: something that is not blank, unless the model had only blanks to
answer. -/
namespace Switchboard

def Event.Speaks : Event → Prop
  | .result text | .error text => Text.isBlankText text = false
  | _ => False

def Event.error? : Event → Option String
  | .error message => some message
  | _ => none

/-- Each request of the trace tells what it may after those before it. -/
def Trace.Spoken (t : Trace) : Prop :=
  ∀ before x after, t = before ++ x :: after → Request.MaySay before x.1

/-- The last result that the listener saw is an empty one that stands for a blank reply. -/
def Trace.EndsBlank (t : Trace) : Prop :=
  ∃ before after : Trace, t = before ++ .taken (.result "") :: after ∧ before.Blank ∧
    after.results = []

namespace Trace

variable {t t' : Trace} {reply message : String}

theorem Spoken.append (h : t.Spoken) (h' : ∀ x ∈ t', x.1.Plain) : Spoken (t ++ t') := by
  intro before x after heq
  rcases List.append_eq_append_iff.mp heq with ⟨rest, rfl, hrest⟩ | ⟨rest, hrest, hx⟩
  · rw [hrest] at h'
    exact .inl (h' x (List.mem_append_right _ List.mem_cons_self))
  · cases rest with
    | nil =>
      change x :: after = t' at hx
      exact .inl (h' x (hx ▸ List.mem_cons_self))
    | cons y rest =>
      cases hx
      exact h before x rest hrest

theorem Spoken.may (h : t.Spoken) {event : Event} (hm : event ∈ t.events) :
    ∃ before : Trace, Request.MaySay before (.emit event) := by
  obtain ⟨before, after, rfl⟩ := List.append_of_mem (mem_events.mp hm)
  exact ⟨before, h before _ after rfl⟩

theorem Spoken.speaks_error (h : t.Spoken) (hm : .error message ∈ t.events) :
    (Event.error message).Speaks := by
  obtain ⟨before, hplain | ⟨hempty, -⟩⟩ := h.may hm
  · exact hplain
  · cases hempty

theorem mem_results : reply ∈ t.results ↔ .result reply ∈ t.events := by
  rw [results, List.mem_filterMap]
  constructor
  · rintro ⟨event, hm, hevent⟩
    cases event <;> cases hevent
    exact hm
  · exact fun hm => ⟨_, hm, rfl⟩

/-- After its last result a trace has no results any more. -/
theorem exists_last_result (h : t.results.getLast? = some reply) :
    ∃ before after : Trace, t = before ++ .taken (.result reply) :: after ∧ after.results = [] := by
  have hresults (t : Trace) : t.results = t.filterMap fun x => x.event?.bind Event.result? :=
    List.filterMap_filterMap
  obtain ⟨init, hinit⟩ := List.getLast?_eq_some_iff.mp h
  rw [hresults] at hinit
  obtain ⟨t₁, t₂, rfl, -, hlast⟩ := List.filterMap_eq_append_iff.mp hinit
  obtain ⟨quiet, x, after, rfl, -, hx, hafter⟩ := List.filterMap_eq_cons_iff.mp hlast
  obtain ⟨event, hevent, hresult⟩ := Option.bind_eq_some_iff.mp hx
  cases event <;> cases hresult
  rw [Exchange.event?_eq_some] at hevent
  subst hevent
  exact ⟨t₁ ++ quiet, after, (List.append_assoc ..).symm, (hresults after).trans hafter⟩

/-- If the last result is blank, it is empty and stands for a blank reply. -/
theorem Spoken.endsBlank (h : t.Spoken) (hlast : t.results.getLast? = some reply)
    (hblank : Text.isBlankText reply = true) : reply = "" ∧ t.EndsBlank := by
  obtain ⟨before, after, heq, hafter⟩ := exists_last_result hlast
  rcases h before _ after heq with hplain | ⟨hempty, hbefore⟩
  · exact absurd hblank (Bool.eq_false_iff.mp hplain)
  · cases hempty
    exact ⟨rfl, before, after, heq, hbefore, hafter⟩

theorem EndsBlank.getLast?_results (h : t.EndsBlank) : t.results.getLast? = some "" := by
  obtain ⟨before, after, rfl, -, hafter⟩ := h
  have hlast : Trace.results (.taken (.result "") :: after) = [""] := congrArg (_ :: ·) hafter
  rw [results_append, hlast]
  exact List.getLast?_concat

end Trace

theorem Route.intentsOf_ne_nil (c : Catalog) (message : String) (reply : Except ModelError String) :
    Route.intentsOf c message reply ≠ [] := by
  unfold Route.intentsOf
  split
  · exact List.cons_ne_nil _ _
  · split <;> exact List.cons_ne_nil _ _

theorem Intent.merge_ne_nil {new : List Intent} (h : new ≠ []) (pending : List Intent) :
    Intent.merge new pending ≠ [] := by
  unfold Intent.merge
  induction pending generalizing new with
  | nil => exact h
  | cons i rest ih =>
    refine ih ?_
    dsimp only
    split
    · exact h
    · exact List.append_ne_nil_of_left_ne_nil h _

namespace Agent

variable {a : Agent} {conversation message : String} {t past : Trace}
  {result : Except TurnError Unit}

theorem keep_plain (r : Except TurnError Batch.Outcome) :
    (keep conversation r).Only Request.Plain := by
  refine (keep_only r).mono fun r h => ?_
  have hquiet := h.1
  cases r <;> trivial

theorem runTurn_may (past : Trace) :
    (a.runTurn conversation message).Guarded Request.MaySay past := by
  rw [runTurn_eq]
  refine ⟨.inl trivial, fun taken => ?_⟩
  cases taken with
  | false => trivial
  | true =>
    change (a.gather conversation message >>= a.carryOut conversation).Guarded Request.MaySay _
    refine ((gather_only.mono fun _ => Request.OfGathering.plain).guarded
      Request.MaySay.of_plain _).bind fun _ gathered _ => ?_
    cases gathered with
    | error err => trivial
    | ok intents =>
      refine (Batch.execute_may _).bind fun _ executed _ => ?_
      exact (keep_plain executed).guarded Request.MaySay.of_plain _

theorem closeTurn_plain (result : Except TurnError Unit) :
    (closeTurn result).Only Request.Plain := by
  have hclosing : Text.isBlankText closingNotice = false := by decide +kernel
  unfold closeTurn
  split
  · exact ⟨trivial, fun _ => trivial⟩
  · refine ⟨trivial, fun closed => ?_⟩
    cases closed
    · exact ⟨hclosing, fun _ => ⟨trivial, fun _ => trivial⟩⟩
    · exact ⟨trivial, fun _ => trivial⟩
  next err _ => exact ⟨plain_turnError err, fun _ => ⟨trivial, fun _ => trivial⟩⟩

theorem spoken_of_handles (h : a.Handles conversation message t result) : t.Spoken := by
  have hspoken {t : Trace} {left : Dialogue (Except TurnError Unit)}
      (h : (a.runTurn conversation message).After t left) : t.Spoken :=
    fun before x after heq => (runTurn_may []).of_after h heq
  cases h with
  | carriedOut hrun hclose => exact (hspoken hrun).append ((closeTurn_plain _).of_mem hclose)
  | shutDown hafter _ hclose => exact (hspoken hafter).append ((closeTurn_plain _).of_mem hclose)

/-- A turn finds some intent in every message. -/
theorem ne_nil_of_gather {intents : List Intent}
    (h : (a.gather conversation message).Run t (.ok intents)) : intents ≠ [] := by
  obtain ⟨memory, _, -, hrest⟩ := Program.run_ask.mp h
  change (a.index.candidates a.hasEmbedder a.catalog message >>= _).Run _ _ at hrest
  obtain ⟨_, candidates, _, -, -, hroute⟩ := Program.run_bind.mp hrest
  obtain ⟨reply, _, -, hreplied⟩ := Program.run_ask.mp hroute
  obtain ⟨closed, _, -, hopen⟩ := Program.run_ask.mp hreplied
  cases closed with
  | true => cases (Program.run_done.mp hopen).2
  | false =>
    change (popPending conversation >>= _).Run _ _ at hopen
    obtain ⟨_, pending, _, -, -, hremember⟩ := Program.run_bind.mp hopen
    obtain ⟨kept, _, -, hend⟩ := Program.run_ask.mp hremember
    cases (Program.run_done.mp hend).2
    exact Intent.merge_ne_nil (Route.intentsOf_ne_nil _ _ _) pending

/-- A turn that goes wrong ends with an error. -/
theorem farewell_error (err : TurnError) :
    ∃ message, farewell (.error err) = [.error message, .done] := by
  cases err <;> exact ⟨_, rfl⟩

theorem events_of_handles (h : a.Handles conversation message t result) (ha : t.Attended) :
    ∃ events, t.events = events ++ farewell result := by
  cases h with
  | carriedOut _ hclose | shutDown _ _ hclose =>
    obtain ⟨-, ha⟩ := Trace.attended_append.mp ha
    rw [Trace.events_append, events_of_closeTurn hclose ha]
    exact ⟨_, rfl⟩

/-- A turn tells how one of its intents ended, or what went wrong. -/
theorem concludes_of_handled (h : a.Handles conversation message t result) (ha : t.Attended) :
    ∃ event ∈ t.events, event.concludes = true := by
  cases result with
  | ok u =>
    obtain ⟨outcome, hconcludes⟩ := concludes_of_handles h
    obtain ⟨found, intents, ran, hgather, hexecute, -, htold⟩ := results_of_concludes hconcludes
    obtain ⟨event, hm, hevent⟩ := Batch.concludes_of_execute (ne_nil_of_gather hgather) hexecute
    exact ⟨event, htold event hm, hevent⟩
  | error err =>
    obtain ⟨events, hevents⟩ := events_of_handles h ha
    obtain ⟨message, hfarewell⟩ := farewell_error err
    rw [hevents, hfarewell]
    exact ⟨.error message, List.mem_append_right _ List.mem_cons_self, rfl⟩

/-- Without a result the text of a turn is one of its errors. -/
theorem textOf_of_error (hresults : t.results = [])
    (hconcludes : ∃ event ∈ t.events, event.concludes = true) :
    ∃ message, .error message ∈ t.events ∧ textOf t.events = message := by
  have htext : textOf t.events =
      (t.results.getLast?.or (t.events.filterMap Event.error?).getLast?).getD "" := rfl
  have hmem {message : String} (h : message ∈ t.events.filterMap Event.error?) :
      .error message ∈ t.events := by
    obtain ⟨event, hm, hevent⟩ := List.mem_filterMap.mp h
    cases event <;> cases hevent
    exact hm
  rw [htext, hresults]
  cases hlast : (t.events.filterMap Event.error?).getLast? with
  | some message => exact ⟨message, hmem (List.mem_of_getLast? hlast), rfl⟩
  | none =>
    obtain ⟨event, hm, hevent⟩ := hconcludes
    cases event <;> cases hevent
    · have hresult := Trace.mem_results.mpr hm
      rw [hresults] at hresult
      exact absurd hresult List.not_mem_nil
    · have herror := List.filterMap_eq_nil_iff.mp (List.getLast?_eq_none_iff.mp hlast) _ hm
      cases herror

/-- The text of a turn is blank only where its last result is. -/
theorem isBlankText_textOf (h : t.Spoken)
    (hconcludes : ∃ event ∈ t.events, event.concludes = true) :
    Text.isBlankText (textOf t.events) = true ↔ t.EndsBlank := by
  constructor
  · intro hblank
    cases hlast : t.results.getLast? with
    | some reply =>
      rw [textOf_of_results hlast] at hblank
      exact (h.endsBlank hlast hblank).2
    | none =>
      obtain ⟨message, hm, htext⟩ := textOf_of_error (List.getLast?_eq_none_iff.mp hlast) hconcludes
      rw [htext] at hblank
      exact absurd hblank (Bool.eq_false_iff.mp (h.speaks_error hm))
  · intro hends
    rw [textOf_of_results hends.getLast?_results]
    rfl

/-- A turn in which nothing is said has one result, the empty one. -/
theorem speaks_or_blank (h : a.Handles conversation message t result) (ha : t.Attended) :
    (∃ event ∈ t.events, event.Speaks) ∨ t.results = [""] ∧ t.EndsBlank := by
  have hspoken := spoken_of_handles h
  obtain ⟨event, hm, hevent⟩ := concludes_of_handled h ha
  by_cases hspeaks : ∃ event ∈ t.events, event.Speaks
  · exact .inl hspeaks
  -- Every error says something, so there is none: the turn came to an outcome, with blank results.
  have hnoerror (message : String) : .error message ∉ t.events :=
    fun hm => hspeaks ⟨_, hm, hspoken.speaks_error hm⟩
  have hblank : ∀ reply ∈ t.results, Text.isBlankText reply = true := by
    intro reply hm
    apply Classical.byContradiction
    intro hwords
    exact hspeaks ⟨_, Trace.mem_results.mp hm, Bool.eq_false_iff.mpr hwords⟩
  right
  cases result with
  | error err =>
    obtain ⟨events, hevents⟩ := events_of_handles h ha
    obtain ⟨message, hfarewell⟩ := farewell_error err
    refine absurd ?_ (hnoerror message)
    rw [hevents, hfarewell]
    exact List.mem_append_right _ List.mem_cons_self
  | ok u =>
    obtain ⟨outcome, hconcludes⟩ := concludes_of_handles h
    obtain ⟨-, intents, ran, -, hexecute, hresults, -⟩ := results_of_concludes hconcludes
    have hfew : t.results.length ≤ 1 := by
      rw [hresults] at hblank ⊢
      exact Batch.length_results_le hexecute hblank
    cases event <;> cases hevent
    · have hresult := Trace.mem_results.mpr hm
      obtain ⟨reply, hone⟩ := List.length_eq_one_iff.mp
        (Nat.le_antisymm hfew (List.length_pos_of_mem hresult))
      have hlast : t.results.getLast? = some reply := by rw [hone]; rfl
      obtain ⟨rfl, hends⟩ := hspoken.endsBlank hlast (hblank reply (hone ▸ List.mem_cons_self))
      exact ⟨hone, hends⟩
    · exact absurd hm (hnoerror _)

/-- A turn whose listener stays to its end has told something that is not blank before it is done,
but for one case: its only result is empty, and stands for a blank reply of the model. Its text is
blank exactly where such a result is the last one. -/
theorem turn_speaks (h : a.Handles conversation message t result) (ha : t.Attended) :
    ∃ before, t.events = before ++ [.done] ∧
      ((∃ event ∈ before, event.Speaks) ∨ t.results = [""] ∧ t.EndsBlank) ∧
      (Text.isBlankText (textOf t.events) = true ↔ t.EndsBlank) := by
  obtain ⟨before, hbefore⟩ : ∃ before, t.events = before ++ [.done] := by
    obtain ⟨events, hevents⟩ := events_of_handles h ha
    cases result with
    | ok u => exact ⟨events, hevents⟩
    | error err =>
      obtain ⟨message, hfarewell⟩ := farewell_error err
      rw [hfarewell, List.append_cons] at hevents
      exact ⟨_, hevents⟩
  refine ⟨before, hbefore, ?_, isBlankText_textOf (spoken_of_handles h) (concludes_of_handled h ha)⟩
  refine (speaks_or_blank h ha).imp_left fun ⟨event, hm, hspeaks⟩ => ⟨event, ?_, hspeaks⟩
  rw [hbefore] at hm
  rcases List.mem_append.mp hm with hm | hdone
  · exact hm
  · cases List.mem_singleton.mp hdone
    exact absurd hspeaks id

theorem turn_speaks_sample : ∃ t : Trace, sampleAgent.Handles "c" "m" t (.ok ()) ∧ t.Attended ∧
    ∃ before, t.events = before ++ [.done] ∧
      ((∃ event ∈ before, event.Speaks) ∨ t.results = [""] ∧ t.EndsBlank) ∧
      (Text.isBlankText (textOf t.events) = true ↔ t.EndsBlank) := by
  obtain ⟨t, t', hrun, hclose, ha, -⟩ := turn_sample
  exact ⟨t ++ t', .carriedOut hrun hclose, ha, turn_speaks (.carriedOut hrun hclose) ha⟩

def directAgent : Agent where
  catalog := ⟨[Engine.sampleSkill], "weather"⟩
  engine := ⟨{ mode := .direct }, 1⟩
  window := {}
  index := { topK := 3 }
  hasEmbedder := false

/-- The model answers in blanks, and the listener hears of no error and of no word. -/
theorem turn_silent : ∃ t : Trace, directAgent.Handles "c" "m" t (.ok ()) ∧ t.Attended ∧
    (∀ event ∈ t.events, ¬ event.Speaks) ∧ textOf t.events = "" := by
  obtain ⟨messages, hgather⟩ : ∃ messages, (directAgent.gather "c" "m").Run
      (⟨.readMemory "c", .ok []⟩ :: findings "c" "m" messages (.ok " \n") [])
      (.ok [⟨"weather", "m"⟩]) := gather_run rfl "c" "m" (.ok " \n") []
  have hrun : (directAgent.engine.execute Engine.sampleSkill "m" 0).Run _
      (.ok { reply := some "" }) :=
    Engine.runDirect_run rfl (rfl : ToolCall.parse? " \n" = none) _ 0 "m" "p"
  have hintent : (Batch.runIntent directAgent.engine directAgent.catalog "c" 1 1
      ⟨"weather", "m"⟩).run.Run _ _ :=
    Batch.runIntent_run (r := ⟨⟨"weather", "m"⟩, Engine.sampleSkill, 0, _, none⟩) rfl hrun
  have hloop : (Batch.runIntents directAgent.engine directAgent.catalog "c" 1 1
      [⟨"weather", "m"⟩] {}).run.Run _ _ :=
    Batch.run_work hintent (Program.run_done.mpr ⟨rfl, rfl⟩)
  have hconclude : (Batch.conclude "c" ({ results := [("m", "")] }, 0)).run.Run
      [⟨.clearAskStreaks "c", .ok ()⟩] (.ok ⟨some "", false, 0, 0⟩) :=
    Program.run_ask.mpr ⟨.ok (), [], rfl, Program.run_done.mpr ⟨rfl, rfl⟩⟩
  have hexecute : (Batch.execute directAgent.engine directAgent.catalog "c"
      [⟨"weather", "m"⟩]).run.Run _ (.ok ⟨some "", false, 0, 0⟩) :=
    Batch.run_work hloop hconclude
  have hcarry : (directAgent.carryOut "c" (.ok [⟨"weather", "m"⟩])).Run _ (.ok ()) :=
    Program.Run.bind hexecute
      (Program.run_ask.mpr ⟨.ok (), [], rfl, Program.run_done.mpr ⟨rfl, rfl⟩⟩)
  have hclose : (closeTurn (.ok ())).Run [Exchange.taken .done] () :=
    Program.run_ask.mpr ⟨true, [], rfl, Program.run_done.mpr ⟨rfl, rfl⟩⟩
  refine ⟨_, .carriedOut (runTurn_run hgather hcarry) hclose, ?_, ?_, rfl⟩
  · simp [Exchange.Attended, Exchange.taken, Exchange.present, findings, popped,
      Batch.IntentRun.seeded, Batch.IntentRun.counted]
  · have hblank : Text.isBlankText "" = true := rfl
    change ∀ event ∈ [Event.planning startNotice, .skillStart 1 1 "weather" "m", .result "", .done],
      ¬ event.Speaks
    simp [Event.Speaks, hblank]

end Agent
end Switchboard
