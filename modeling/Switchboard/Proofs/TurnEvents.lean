import Switchboard.Proofs.TurnParts

/-! The events of a whole turn, for a listener who stays and with stores that do not fail. -/
namespace Switchboard

/-- What a turn tells outside the blocks of its intents while all goes well. -/
def Event.OfNotice : Event → Prop
  | .planning _ | .result _ => True
  | _ => False

def Request.OfClosing : Request → Prop
  | .emit (.error _) | .emit .done | .isClosed => True
  | _ => False

theorem Request.OfClosing.keeps {r : Request} (h : r.OfClosing) : r.KeepsPending := by
  cases r <;> trivial

section
variable {events : List Event}

theorem done_notMem_of_notices (h : ∀ event ∈ events, event.OfNotice) : Event.done ∉ events :=
  fun hm => h _ hm

theorem filter_isSkillStart_of_notices (h : ∀ event ∈ events, event.OfNotice) :
    events.filter Event.isSkillStart = [] := by
  refine List.filter_eq_nil_iff.mpr fun event hm => ?_
  have hnotice := h event hm
  cases event <;> first | exact absurd hnotice id | exact Bool.false_ne_true

theorem countP_isError_of_notices (h : ∀ event ∈ events, event.OfNotice) :
    events.countP Event.isError = 0 := by
  refine List.countP_eq_zero.mpr fun event hm => ?_
  have hnotice := h event hm
  cases event <;> first | exact absurd hnotice id | exact Bool.false_ne_true

end

namespace Batch

variable {e : Engine} {c : Catalog} {conversation : String} {intents : List Intent}
  {runs : List IntentRun} {t : Trace} {out : Option (Except TurnError Outcome)}

theorem Summary.notices {events : List Event} (h : Summary events) :
    ∀ event ∈ events, event.OfNotice := by
  cases h <;> simp [Event.OfNotice]

theorem notices_of_opening (total : Nat) : ∀ event ∈ (opening total).events, event.OfNotice := by
  unfold opening
  split <;> simp [Event.OfNotice]

/-- The events of runs as a turn tells them: notices, blocks and the summary. A turn that is cut
short before its first run may miss notices. -/
structure Told (notices : List Event) (total : Nat) (runs : List IntentRun) (whole : Prop)
    (leading summary events : List Event) : Prop where
  begins : leading <+: notices
  announced : runs ≠ [] ∨ whole → leading = notices
  summarizes : Summary summary
  order : events = leading ++ (blocks total 1 runs ++ summary)

theorem Told.imp {notices leading summary events : List Event} {total : Nat} {whole whole' : Prop}
    (h : Told notices total runs whole leading summary events) (hwhole : whole' → whole) :
    Told notices total runs whole' leading summary events :=
  ⟨h.begins, fun hor => h.announced (hor.imp_right hwhole), h.summarizes, h.order⟩

theorem runs_of_executed (h : Executed e c conversation intents runs t out) :
    Runs e c intents runs t := by
  cases h with
  | unopened => exact .nil ..
  | cut h | failed h => exact (runs_of_loop h).of_part (List.suffix_append ..).isInfix
  | concluded h => exact (runs_of_loop h).of_part ⟨_, _, List.append_assoc ..⟩

theorem told_of_loop {ended : Option (Except TurnError (Tally × Nat))} {whole : Prop}
    (h : Loop e c conversation intents.length 1 intents {} runs t ended) :
    Told (opening intents.length).events intents.length runs whole
      (opening intents.length).events [] (opening intents.length ++ t : Trace).events := by
  refine ⟨List.prefix_rfl, fun _ => rfl, .silent, ?_⟩
  rw [Trace.events_append, events_of_loop h, List.append_nil]

theorem told_of_executed (h : Executed e c conversation intents runs t out)
    (ht : t.Undisturbed c) :
    ∃ leading summary, Told (opening intents.length).events intents.length runs (out ≠ none)
      leading summary t.events := by
  cases h with
  | unopened => exact ⟨[], [], List.nil_prefix, by simp, .silent, rfl⟩
  | cut h => exact ⟨_, [], told_of_loop h⟩
  | failed h => exact ⟨_, [], told_of_loop h⟩
  | concluded h hconclude =>
    obtain ⟨-, ht⟩ := Trace.undisturbed_append.mp ht
    obtain ⟨-, hend⟩ := Trace.undisturbed_append.mp ht
    obtain ⟨hsummary, -⟩ := summary_of_conclude hconclude hend
    refine ⟨_, _, List.prefix_rfl, fun _ => rfl, hsummary, ?_⟩
    rw [Trace.events_append, Trace.events_append, events_of_loop h]

theorem outcomes_of_executed (h : Executed e c conversation intents runs t out)
    (hwhole : out ≠ none) : ∀ r ∈ runs, r.outcome ≠ none := by
  cases h with
  | unopened => exact absurd rfl hwhole
  | cut => exact absurd rfl hwhole
  | failed h => exact outcomes_of_loop h nofun
  | concluded h => exact outcomes_of_loop h nofun

theorem error_of_executed {err : TurnError}
    (h : Executed e c conversation intents runs t (some (.error err))) (ht : t.Undisturbed c) :
    err = .noFallback := by
  generalize hout : some (Except.error err) = out at h
  cases h with
  | unopened | cut => cases hout
  | failed h =>
    cases hout
    exact (error_of_loop h).1
  | concluded h hconclude =>
    obtain ⟨-, ht⟩ := Trace.undisturbed_append.mp ht
    obtain ⟨-, hend⟩ := Trace.undisturbed_append.mp ht
    obtain ⟨-, hok⟩ := summary_of_conclude hconclude hend
    exact absurd hout.symm (hok err)

end Batch

namespace Agent
open Batch (IntentRun)

variable {a : Agent} {conversation message : String} {t : Trace} {result : Except TurnError Unit}

/-- How a turn is handled: to its end, or to where the service is shut down. A turn that comes after
the shutdown is cut short at once. -/
inductive Handles (a : Agent) (conversation message : String) :
    Trace → Except TurnError Unit → Prop where
  | carriedOut {t t' : Trace} {result : Except TurnError Unit} :
    (a.runTurn conversation message).Run t result → (closeTurn result).Run t' () →
    Handles a conversation message (t ++ t') result
  | shutDown {t t' : Trace} {left : Dialogue (Except TurnError Unit)} :
    (a.runTurn conversation message).After t left → ¬ left.IsDone →
    (closeTurn (.error .cancelled)).Run t' () →
    Handles a conversation message (t ++ t') (.error .cancelled)

theorem closeTurn_only (result : Except TurnError Unit) :
    (closeTurn result).Only Request.OfClosing := by
  unfold closeTurn
  split
  · exact ⟨trivial, fun _ => trivial⟩
  · refine ⟨trivial, fun closed => ?_⟩
    cases closed
    · exact ⟨trivial, fun _ => ⟨trivial, fun _ => trivial⟩⟩
    · exact ⟨trivial, fun _ => trivial⟩
  · exact ⟨trivial, fun _ => ⟨trivial, fun _ => trivial⟩⟩

def farewell : Except TurnError Unit → List Event
  | .ok () => [.done]
  | .error .cancelled => [.error closingNotice, .done]
  | .error err => [.error s!"处理请求时出错: {err.message}", .done]

def notices (total : Nat) : List Event :=
  .planning startNotice :: (Batch.opening total).events

theorem events_of_closeTurn (h : (closeTurn result).Run t ()) (ha : t.Attended) :
    t.events = farewell result := by
  have hlast {t : Trace} (h : (Dialogue.emit .done >>= fun _ => pure () : Dialogue Unit).Run t ())
      (ha : t.Attended) : t.events = [.done] := by
    obtain ⟨t, rfl, hend, -⟩ := Dialogue.run_emit h ha
    obtain ⟨rfl, -⟩ := Program.run_done.mp hend
    rfl
  unfold closeTurn at h
  split at h
  · exact hlast h ha
  · obtain ⟨t, rfl, hopen, ha⟩ := Dialogue.run_isClosed h ha
    obtain ⟨t, rfl, hend, ha⟩ := Dialogue.run_emit hopen ha
    rw [Trace.events_present, Trace.events_taken, hlast hend ha]
    rfl
  next err hne =>
    obtain ⟨t, rfl, hend, ha⟩ := Dialogue.run_emit h ha
    rw [Trace.events_taken, hlast hend ha]
    cases err <;> first | rfl | exact absurd rfl hne

variable {intents : List Intent} {runs : List IntentRun} {out : Option (Except TurnError Unit)}

/-- What is told of a turn's intents comes after the notice of its start. -/
theorem told_of_gathered {whole whole' : Prop} {leading summary : List Event} {t' : Trace}
    (hgathered : a.Gathered conversation message t intents)
    (htold : Batch.Told (Batch.opening intents.length).events intents.length runs whole leading
      summary t'.events) (hwhole : whole' → whole) :
    Batch.Told (notices intents.length) intents.length runs whole'
      (.planning startNotice :: leading) summary
      (Trace.events (.taken (.planning startNotice) :: (t ++ t'))) := by
  refine ⟨(List.prefix_cons_inj _).mpr htold.begins, fun hor => ?_, htold.summarizes, ?_⟩
  · have hleading := htold.announced (hor.imp_right hwhole)
    rw [hleading, notices]
  · rw [Trace.events_taken, Trace.events_append, hgathered.events, htold.order]
    rfl

theorem told_of_carried (h : a.Carried conversation message intents runs t out)
    (ht : t.Undisturbed a.catalog) (rest : Trace) :
    ∃ leading summary, Batch.Told (notices (a.intentsOf message (t ++ rest)).length)
      (a.intentsOf message (t ++ rest)).length runs (out ≠ none) leading summary t.events := by
  cases h with
  | unheard => exact ⟨[], [], List.nil_prefix, by simp, .silent, rfl⟩
  | @gathering t hgathering =>
    have hquiet : t.events = [] := Trace.events_of_quiet fun x hx => (hgathering x hx).quiet
    refine ⟨[.planning startNotice], [], List.prefix_append [_] _, by simp, .silent, ?_⟩
    rw [Trace.events_taken, hquiet]
    rfl
  | cut hgathered hexecuted =>
    obtain ⟨-, ht⟩ := Trace.undisturbed_append.mp ht.tail
    obtain ⟨leading, summary, htold⟩ := Batch.told_of_executed hexecuted ht
    rw [List.cons_append, List.append_assoc, hgathered.intentsOf_eq]
    exact ⟨_, summary, told_of_gathered hgathered htold fun h => absurd rfl h⟩
  | @executed _ _ t₁ t₂ t₃ r left hgathered hexecuted hkeep =>
    obtain ⟨-, ht⟩ := Trace.undisturbed_append.mp ht.tail
    obtain ⟨ht₂, -⟩ := Trace.undisturbed_append.mp ht
    obtain ⟨leading, summary, htold⟩ := Batch.told_of_executed hexecuted ht₂
    have hquiet : t₃.events = [] :=
      Trace.events_of_quiet fun x hx => ((keep_only r).of_mem hkeep x hx).1
    have hevents : Trace.events (t₂ ++ t₃) = t₂.events := by
      rw [Trace.events_append, hquiet, List.append_nil]
    rw [← hevents] at htold
    rw [List.cons_append, List.append_assoc, hgathered.intentsOf_eq]
    exact ⟨_, summary, told_of_gathered hgathered htold fun _ => Option.some_ne_none _⟩

theorem runs_of_carried (h : a.Carried conversation message intents runs t out) (rest : Trace) :
    Batch.Runs a.engine a.catalog (a.intentsOf message (t ++ rest)) runs (t ++ rest) := by
  cases h with
  | unheard | gathering => exact .nil ..
  | @cut _ _ t t' hgathered hexecuted =>
    have hruns := Batch.runs_of_executed hexecuted
    rw [List.cons_append, List.append_assoc, hgathered.intentsOf_eq]
    exact hruns.of_part ⟨.taken (.planning startNotice) :: t, rest, by simp⟩
  | @executed _ _ t t' t'' _ _ hgathered hexecuted =>
    have hruns := Batch.runs_of_executed hexecuted
    rw [List.cons_append, List.append_assoc, hgathered.intentsOf_eq]
    exact hruns.of_part ⟨.taken (.planning startNotice) :: t, t'' ++ rest, by simp⟩

theorem outcomes_of_carried (h : a.Carried conversation message intents runs t out)
    (hwhole : out ≠ none) : ∀ r ∈ runs, r.outcome ≠ none := by
  cases h with
  | unheard | gathering | cut => exact absurd rfl hwhole
  | executed _ hexecuted => exact Batch.outcomes_of_executed hexecuted nofun

theorem error_of_carried {err : TurnError}
    (h : a.Carried conversation message intents runs t (some (.error err)))
    (ht : t.Undisturbed a.catalog) : err = .noFallback := by
  generalize hout : some (Except.error err) = out at h
  cases h with
  | unheard | gathering | cut => cases hout
  | @executed _ _ _ _ _ r _ _ hexecuted hkeep =>
    have hresult := value?_of_keep hkeep hout.symm
    cases r with
    | ok outcome => cases hresult
    | error err' =>
      cases hresult
      obtain ⟨-, ht⟩ := Trace.undisturbed_append.mp ht.tail
      obtain ⟨ht₂, -⟩ := Trace.undisturbed_append.mp ht
      exact Batch.error_of_executed hexecuted ht₂

/-- The turn is cut short before it has come to its end. -/
def CutShort (a : Agent) (conversation message : String) (t : Trace) : Prop :=
  ∃ t' left, t' <+: t ∧ (a.runTurn conversation message).After t' left ∧ ¬ left.IsDone

/-- The account of a turn's events by the runs of its intents. -/
structure Account (a : Agent) (conversation message : String) (t : Trace)
    (result : Except TurnError Unit) (runs : List IntentRun) : Prop where
  inOrder : Batch.Runs a.engine a.catalog (a.intentsOf message t) runs t
  order : ∃ leading summary events, t.events = events ++ farewell result ∧
    Batch.Told (notices (a.intentsOf message t).length) (a.intentsOf message t).length runs
      (result ≠ .error .cancelled) leading summary events
  starts : t.events.filter Event.isSkillStart = runs.mapIdx fun n r =>
    .skillStart (n + 1) (a.intentsOf message t).length r.skill.name r.intent.task
  errors : t.events.countP Event.isError =
    runs.countP IntentRun.failed + if result.isOk then 0 else 1
  done : t.events.count .done = 1 ∧ t.events.getLast? = some .done
  whole : result ≠ .error .cancelled → ∀ r ∈ runs, r.outcome ≠ none
  faults : result = .ok () ∨ result = .error .noFallback ∨
    result = .error .cancelled ∧ a.CutShort conversation message t

theorem notices_of_leading {leading : List Event} {total : Nat} (h : leading <+: notices total) :
    ∀ event ∈ leading, event.OfNotice := fun event hm =>
  List.forall_mem_cons.mpr ⟨trivial, Batch.notices_of_opening total⟩ event (h.subset hm)

theorem filter_isSkillStart_farewell (result : Except TurnError Unit) :
    (farewell result).filter Event.isSkillStart = [] := by
  unfold farewell
  split <;> rfl

theorem countP_isError_farewell (result : Except TurnError Unit) :
    (farewell result).countP Event.isError = if result.isOk then 0 else 1 := by
  unfold farewell
  split <;> rfl

theorem count_done_farewell (result : Except TurnError Unit) :
    (farewell result).count .done = 1 := by
  unfold farewell
  split <;> rfl

theorem getLast?_append_farewell (events : List Event) (result : Except TurnError Unit) :
    (events ++ farewell result).getLast? = some .done := by
  unfold farewell
  split <;> simp

/-- What is told of a turn before its farewell does not end it. -/
theorem done_notMem_of_told {total : Nat} {whole : Prop} {leading summary events : List Event}
    (hvalid : ∀ r ∈ runs, r.Valid a.engine a.catalog)
    (h : Batch.Told (notices total) total runs whole leading summary events) :
    Event.done ∉ events := by
  rw [h.order, List.mem_append, List.mem_append, not_or, not_or]
  exact ⟨done_notMem_of_notices (notices_of_leading h.begins),
    Batch.done_not_mem_blocks hvalid, done_notMem_of_notices h.summarizes.notices⟩

/-- Events that begin with notices and blocks and end with a farewell are told as they should be. -/
theorem account_of_told {leading summary events : List Event}
    (hruns : Batch.Runs a.engine a.catalog (a.intentsOf message t) runs t)
    (htold : Batch.Told (notices (a.intentsOf message t).length) (a.intentsOf message t).length runs
      (result ≠ .error .cancelled) leading summary events)
    (horder : t.events = events ++ farewell result) (ht : t.Undisturbed a.catalog)
    (hwhole : result ≠ .error .cancelled → ∀ r ∈ runs, r.outcome ≠ none)
    (hfaults : result = .ok () ∨ result = .error .noFallback ∨
      result = .error .cancelled ∧ a.CutShort conversation message t) :
    a.Account conversation message t result runs := by
  have hleading := notices_of_leading htold.begins
  have hsummary := htold.summarizes.notices
  refine ⟨hruns, ⟨leading, summary, events, horder, htold⟩, ?_, ?_, ⟨?_, ?_⟩, hwhole, hfaults⟩
  · rw [horder, htold.order, List.filter_append, List.filter_append, List.filter_append,
      filter_isSkillStart_of_notices hleading, filter_isSkillStart_of_notices hsummary,
      filter_isSkillStart_farewell, Batch.filter_isSkillStart_blocks hruns.valid]
    simp only [List.nil_append, List.append_nil, Nat.add_comm 1]
    rfl
  · have hblocks : ∀ r ∈ runs, r.Valid a.engine a.catalog ∧ r.trace.Undisturbed a.catalog :=
      fun r hr => ⟨hruns.valid r hr, ht.of_part (hruns.within r hr)⟩
    rw [horder, htold.order, List.countP_append, List.countP_append, List.countP_append,
      countP_isError_of_notices hleading, countP_isError_of_notices hsummary,
      countP_isError_farewell, Batch.countP_isError_blocks hblocks]
    omega
  · rw [horder, List.count_append, count_done_farewell,
      List.count_eq_zero.mpr (done_notMem_of_told hruns.valid htold)]
  · rw [horder]
    exact getLast?_append_farewell ..

/-- A turn that comes to its end has an account. -/
theorem account_of_run {t' : Trace} (hrun : (a.runTurn conversation message).Run t result)
    (hclose : (closeTurn result).Run t' ()) (ht : Trace.Undisturbed a.catalog (t ++ t')) :
    ∃ intents runs, a.Carried conversation message intents runs t (some result) ∧
      a.Account conversation message (t ++ t') result runs := by
  obtain ⟨ht₁, ht₂⟩ := Trace.undisturbed_append.mp ht
  obtain ⟨intents, runs, hcarried⟩ := carried_of_after hrun ht₁
  obtain ⟨leading, summary, htold⟩ := told_of_carried hcarried ht₁ t'
  have horder : Trace.events (t ++ t') = t.events ++ farewell result := by
    rw [Trace.events_append, events_of_closeTurn hclose ht₂.attended]
  have hended : (Program.done result : Dialogue _).value? ≠ none := nofun
  refine ⟨intents, runs, hcarried, account_of_told (runs_of_carried hcarried t')
    (htold.imp fun _ => hended) horder ht (fun _ => outcomes_of_carried hcarried hended) ?_⟩
  cases result with
  | ok u => exact .inl rfl
  | error err =>
    rw [error_of_carried hcarried ht₁]
    exact .inr (.inl rfl)

theorem account_of_handles (h : a.Handles conversation message t result)
    (ht : t.Undisturbed a.catalog) : ∃ runs, a.Account conversation message t result runs := by
  cases h with
  | carriedOut hrun hclose =>
    obtain ⟨intents, runs, -, haccount⟩ := account_of_run hrun hclose ht
    exact ⟨runs, haccount⟩
  | @shutDown t t' left hafter hgoing hclose =>
    -- The turn is left where it stands, and all that is told after that is its close.
    obtain ⟨ht₁, ht₂⟩ := Trace.undisturbed_append.mp ht
    obtain ⟨intents, runs, hcarried⟩ := carried_of_after hafter ht₁
    obtain ⟨leading, summary, htold⟩ := told_of_carried hcarried ht₁ t'
    have horder : Trace.events (t ++ t') = t.events ++ farewell (.error .cancelled) := by
      rw [Trace.events_append, events_of_closeTurn hclose ht₂.attended]
    have hcut : a.CutShort conversation message (t ++ t') :=
      ⟨t, left, List.prefix_append t t', hafter, hgoing⟩
    exact ⟨runs, account_of_told (runs_of_carried hcarried t') (htold.imp fun h => absurd rfl h)
      horder ht (fun h => absurd rfl h) (.inr (.inr ⟨rfl, hcut⟩))⟩

def sampleAgent : Agent where
  catalog := ⟨[⟨"refund", "", [], .text "p"⟩, Engine.sampleSkill], "weather"⟩
  engine := Engine.sampleEngine
  window := {}
  index := { topK := 3 }
  hasEmbedder := false

/-- A turn with two intents: the first asks the user, so the second is put off. -/
theorem turn_sample : ∃ t t' : Trace, (sampleAgent.runTurn "c" "m").Run t (.ok ()) ∧
    (closeTurn (.ok ())).Run t' () ∧ (t ++ t' : Trace).Attended ∧
    (t ++ t' : Trace).Prompted sampleAgent.catalog ∧
    ∃ s, (Stores.inLists 9).Serve (t ++ t') s ∧ s.getIntents "c" = [⟨"refund", "b"⟩] := by
  obtain ⟨messages, hgather⟩ : ∃ messages, (sampleAgent.gather "c" "m").Run
      (⟨.readMemory "c", .ok []⟩ :: findings "c" "m" messages (.ok "weather|a\nrefund|b") [])
      (.ok [⟨"weather", "a"⟩, ⟨"refund", "b"⟩]) := gather_run rfl "c" "m" _ []
  obtain ⟨t, question, hcourse, ha, hc⟩ : ∃ (t : Trace) (question : String),
      Engine.Course Engine.sampleEngine Engine.sampleSkill "a" .preload (.start 0) t
        ⟨some question, true, 1, 0, 0, false⟩ ∧ t.Attended ∧ t.Prompted sampleAgent.catalog := by
    refine ⟨_, _, .stage nofun (.loaded _ "p" [] (Engine.preload_run rfl _ "p"))
      (.stage nofun (.planned _ (Engine.plan_run "a" _ "追问用户：哪里"))
      (.stage nofun (.questioned _ rfl rfl)
      (.stage nofun (.asked _ (by decide)) (.done _)))), ?_, ?_⟩
    · simp [Exchange.Attended, Exchange.taken, Exchange.present]
    · have hprompt : Exchange.Prompted sampleAgent.catalog
          ⟨.prompt Engine.sampleSkill.name, .ok "p"⟩ := ⟨fun _ => none, [], rfl⟩
      simpa [Exchange.Prompted, Exchange.taken, Exchange.present] using hprompt
  have hrun : (Engine.sampleEngine.execute Engine.sampleSkill "a" 0).Run t _ :=
    Engine.run_of_course hcourse
  have hintent : (Batch.runIntent sampleAgent.engine sampleAgent.catalog "c" 2 1
      ⟨"weather", "a"⟩).run.Run _ _ :=
    Batch.runIntent_run (r := ⟨⟨"weather", "a"⟩, Engine.sampleSkill, 0, t, none⟩) rfl hrun
  have hexecute : (Batch.execute sampleAgent.engine sampleAgent.catalog "c"
      [⟨"weather", "a"⟩, ⟨"refund", "b"⟩]).run.Run _ _ :=
    Batch.run_work (Batch.tell_run _) (Batch.run_work
      (Batch.run_work hintent (Program.run_ask.mpr ⟨.ok (), [], rfl,
        Program.run_done.mpr ⟨rfl, rfl⟩⟩))
      (Program.run_done.mpr ⟨rfl, rfl⟩))
  have hcarry : (sampleAgent.carryOut "c" (.ok [⟨"weather", "a"⟩, ⟨"refund", "b"⟩])).Run _
      (.ok ()) := Program.Run.bind hexecute
    (Program.run_ask.mpr ⟨.ok (), [], rfl, Program.run_done.mpr ⟨rfl, rfl⟩⟩)
  refine ⟨_, _, runTurn_run hgather hcarry,
    Program.run_ask.mpr ⟨true, [], rfl, Program.run_done.mpr ⟨rfl, rfl⟩⟩, ?_, ?_, ?_⟩
  · simp [Exchange.Attended, Exchange.taken, Exchange.present, findings, popped, IntentRun.seeded,
      IntentRun.counted, ha]
  · simp [Exchange.Prompted, Exchange.taken, Exchange.present, findings, popped, IntentRun.seeded,
      IntentRun.counted, hc]
  · have ht : ∀ x ∈ t, x.1.OfRun := (Engine.execute_only 0).of_mem hrun
    simp only [findings, popped, List.cons_append, List.nil_append, List.append_assoc]
    exact ⟨_, .cons trivial (.cons rfl (.cons trivial (.cons trivial (.cons rfl (.cons rfl
      (.cons trivial (.cons trivial (.cons rfl (Stores.serve_append.mpr
        ⟨_, (Stores.serve_of_ofRun ht).mpr rfl,
          .cons rfl (.cons rfl (.cons rfl (.cons trivial (.nil _))))⟩))))))))), rfl⟩

end Agent
end Switchboard
