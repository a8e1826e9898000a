import Switchboard.Proofs.Completion
import Switchboard.Proofs.TurnEvents

/-! Turns that complete without an error, whatever the stores and the listener did in them. -/
namespace Switchboard

namespace Batch

variable {e : Engine} {c : Catalog} {conversation : String} {total number : Nat} {α β : Type}
  {t : Trace} {i : Intent}

theorem work_of_ok {x : Work α} {f : α → Work β} {b : β} (h : (x >>= f).run.Run t (.ok b)) :
    ∃ t₁ a t₂, t = t₁ ++ t₂ ∧ x.run.Run t₁ (.ok a) ∧ (f a).run.Run t₂ (.ok b) := by
  rcases after_work h with ⟨d, -, -, hleft⟩ | ⟨err, -, hleft⟩ | hrest
  · exact absurd trivial hleft
  · cases hleft
  · exact hrest

theorem tell_of_ok {event : Event} {f : Unit → Work α} {a : α}
    (h : (tell event >>= f).run.Run t (.ok a)) :
    ∃ t' : Trace, t = .taken event :: t' ∧ (f ()).run.Run t' (.ok a) := by
  obtain ⟨taken, t, rfl, hrest⟩ := Program.run_ask.mp h
  cases taken with
  | false => cases (Program.run_done.mp hrest).2
  | true => exact ⟨t, rfl, hrest⟩

/-- An intent that comes to an outcome has been run. -/
theorem part_of_ok {o : Engine.Outcome}
    (h : (runIntent e c conversation total number i).run.Run t (.ok o)) :
    ∃ r, Part e c conversation total number i (some r) t (some (.ok o)) := by
  unfold runIntent at h
  cases hskill : c.resolve i.skill with
  | error err =>
    rw [hskill] at h
    cases (Program.run_done.mp h).2
  | ok skill =>
    rw [hskill] at h
    obtain ⟨t, rfl, hseed⟩ := tell_of_ok h
    obtain ⟨asks, t, rfl, hrun⟩ := Program.run_ask.mp hseed
    cases asks with
    | error err => cases (Program.run_done.mp hrun).2
    | ok asks =>
      obtain ⟨t₁, o', t₂, rfl, hexecute, hset⟩ := work_of_ok hrun
      obtain ⟨set, t₂, rfl, hend⟩ := Program.run_ask.mp hset
      cases set with
      | error err => cases (Program.run_done.mp hend).2
      | ok u =>
        obtain ⟨rfl, ho⟩ := Program.run_done.mp hend
        cases ho
        have hvalid : IntentRun.Valid e c ⟨i, skill, asks, t₁, some o⟩ :=
          ⟨hskill, _, hexecute, rfl⟩
        exact ⟨_, .ran rfl hvalid rfl⟩

/-- Intents that come to their end have been run in order, but for those that are saved. -/
theorem loop_of_ok {intents : List Intent} {tally : Tally} {ended : Tally × Nat}
    (h : (runIntents e c conversation total number intents tally).run.Run t (.ok ended)) :
    ∃ runs, Loop e c conversation total number intents tally runs t (some (.ok ended)) := by
  induction intents generalizing number tally t with
  | nil =>
    obtain ⟨rfl, hend⟩ := Program.run_done.mp h
    cases hend
    exact ⟨[], .finished number tally⟩
  | cons i rest ih =>
    unfold runIntents at h
    split at h
    next hstopped =>
      obtain ⟨saved, t, rfl, hend⟩ := Program.run_ask.mp h
      cases saved with
      | error err => cases (Program.run_done.mp hend).2
      | ok u =>
        obtain ⟨rfl, hend⟩ := Program.run_done.mp hend
        cases hend
        exact ⟨[], .saved number i rest hstopped⟩
    next hgoing =>
      obtain ⟨t₁, o, t₂, rfl, hintent, hrest⟩ := work_of_ok h
      obtain ⟨r, hpart⟩ := part_of_ok hintent
      obtain ⟨runs, hloop⟩ := ih hrest
      exact ⟨r :: runs, .ran (by simpa using hgoing) hpart hloop⟩

/-- How the reply of a turn is made of its results and its question, and what is told of it. -/
inductive Finished (tally : Tally) : Trace → Option String → Prop where
  | asked {question : String} : tally.question = some question → tally.results = [] →
    Finished tally [] (some question)
  | askedAfter {question : String} (reply : String) : tally.question = some question →
    tally.results ≠ [] → Finished tally [.taken (.result reply)] (some reply)
  | silent : tally.question = none → tally.results = [] → Finished tally [] none
  | single {r : String × String} : tally.question = none → tally.results = [r] →
    Finished tally [] (some r.2)
  | summarized (messages : List Message) (answer : Except ModelError String) (reply : String) :
    tally.question = none →
    Finished tally [.taken (.planning summaryNotice), ⟨.complete messages, answer⟩,
      .taken (.result reply)] (some reply)

theorem finished_of_ok {tally : Tally} {reply : Option String}
    (h : (finish tally).run.Run t (.ok reply)) : Finished tally t reply := by
  unfold finish at h
  split at h
  next question hquestion hresults =>
    obtain ⟨rfl, hreply⟩ := Program.run_done.mp h
    cases hreply
    exact .asked hquestion hresults
  next question hquestion hresults =>
    obtain ⟨t, rfl, hend⟩ := tell_of_ok h
    obtain ⟨rfl, hreply⟩ := Program.run_done.mp hend
    cases hreply
    exact .askedAfter _ hquestion hresults
  next hquestion hresults =>
    obtain ⟨rfl, hreply⟩ := Program.run_done.mp h
    cases hreply
    exact .silent hquestion hresults
  next r hquestion hresults =>
    obtain ⟨rfl, hreply⟩ := Program.run_done.mp h
    cases hreply
    exact .single hquestion hresults
  next hquestion _ _ =>
    obtain ⟨t, rfl, hask⟩ := tell_of_ok h
    obtain ⟨answer, t, rfl, htell⟩ := Program.run_ask.mp hask
    obtain ⟨t, rfl, hend⟩ := tell_of_ok htell
    obtain ⟨rfl, hreply⟩ := Program.run_done.mp hend
    cases hreply
    exact .summarized _ answer _ hquestion

theorem Finished.notices {tally : Tally} {reply : Option String} (h : Finished tally t reply) :
    ∀ event ∈ t.events, event.OfNotice := by
  cases h <;> simp [Event.OfNotice, Trace.events, Exchange.event?, Exchange.taken]

/-- How a turn in which nothing was asked ends the streaks of questions. -/
def clearing (conversation : String) (asked : Bool) : Trace :=
  if asked then [] else [⟨.clearAskStreaks conversation, .ok ()⟩]

theorem conclude_of_ok {ended : Tally × Nat} {outcome : Outcome}
    (h : (conclude conversation ended).run.Run t (.ok outcome)) :
    ∃ t', t = clearing conversation ended.1.asked ++ t' ∧
      (finish ended.1).run.Run t' (.ok outcome.reply) := by
  have hreport {t : Trace} (h : (report ended).run.Run t (.ok outcome)) :
      (finish ended.1).run.Run t (.ok outcome.reply) := by
    obtain ⟨t₁, reply, t₂, rfl, hfinish, hend⟩ := work_of_ok h
    obtain ⟨rfl, hend⟩ := Program.run_done.mp hend
    cases hend
    rw [List.append_nil]
    exact hfinish
  unfold conclude at h
  unfold clearing
  split at h
  next hasked =>
    rw [hasked]
    exact ⟨t, rfl, hreport h⟩
  next hasked =>
    obtain ⟨cleared, t, rfl, hrest⟩ := Program.run_ask.mp h
    cases cleared with
    | error err => cases (Program.run_done.mp hrest).2
    | ok u =>
      rw [if_neg hasked]
      exact ⟨t, rfl, hreport hrest⟩

/-- The intents of a turn are announced, run in order and summarized. -/
theorem executed_of_ok {intents : List Intent} {outcome : Outcome}
    (h : (execute e c conversation intents).run.Run t (.ok outcome)) :
    ∃ runs t₁ ended t₂, t = opening intents.length ++
        (t₁ ++ (clearing conversation ended.1.asked ++ t₂)) ∧
      Loop e c conversation intents.length 1 intents {} runs t₁ (some (.ok ended)) ∧
      (finish ended.1).run.Run t₂ (.ok outcome.reply) := by
  have hopened {t : Trace} (h : (runIntents e c conversation intents.length 1 intents {} >>=
      conclude conversation).run.Run t (.ok outcome)) :
      ∃ runs t₁ ended t₂, t = t₁ ++ (clearing conversation ended.1.asked ++ t₂) ∧
        Loop e c conversation intents.length 1 intents {} runs t₁ (some (.ok ended)) ∧
        (finish ended.1).run.Run t₂ (.ok outcome.reply) := by
    obtain ⟨t₁, ended, t₂, rfl, hintents, hconclude⟩ := work_of_ok h
    obtain ⟨runs, hloop⟩ := loop_of_ok hintents
    obtain ⟨t₂, rfl, hfinish⟩ := conclude_of_ok hconclude
    exact ⟨runs, t₁, ended, t₂, rfl, hloop, hfinish⟩
  rw [execute_eq] at h
  unfold opening
  split at h
  next hmany =>
    obtain ⟨t, rfl, hrest⟩ := tell_of_ok h
    obtain ⟨runs, t₁, ended, t₂, rfl, hloop, hfinish⟩ := hopened hrest
    rw [if_pos hmany]
    exact ⟨runs, t₁, ended, t₂, rfl, hloop, hfinish⟩
  next hfew =>
    rw [if_neg hfew]
    exact hopened h

end Batch

def Request.OfFinding : Request → Prop
  | .clearPending _ | .getPending _ | .complete _ | .isClosed => True
  | r => r.OfSearch

theorem Request.OfSearch.ofFinding {r : Request} (h : r.OfSearch) : r.OfFinding := by
  cases r <;> trivial

namespace Agent

variable {a : Agent} {conversation message : String} {t : Trace}

theorem popPending_finds : (popPending conversation).Only Request.OfFinding := by
  refine ⟨trivial, fun answer => ?_⟩
  cases answer with
  | error err => trivial
  | ok intents =>
    dsimp only [Program.bind]
    split
    · trivial
    · refine ⟨trivial, fun cleared => ?_⟩
      cases cleared <;> trivial

/-- The exchanges by which the intents of a message are found, up to where it is remembered. -/
inductive Found (conversation message : String) : Trace → Prop where
  | remembered (kept : Except TurnError Unit) :
    Found conversation message [⟨.appendMemory conversation ⟨.user, message⟩, kept⟩]
  | cons {x : Exchange} {t : Trace} : x.1.OfFinding → Found conversation message t →
    Found conversation message (x :: t)

theorem Found.append {t' : Trace} (ht : ∀ x ∈ t, x.1.OfFinding)
    (h : Found conversation message t') : Found conversation message (t ++ t') := by
  induction t with
  | nil => exact h
  | cons x t ih =>
    obtain ⟨hx, ht⟩ := List.forall_mem_cons.mp ht
    exact .cons hx (ih ht)

theorem Found.events (h : Found conversation message t) : t.events = [] := by
  refine Trace.events_of_quiet ?_
  induction h with
  | remembered => exact List.forall_mem_singleton.mpr trivial
  | @cons x t hx _ ih =>
    refine List.forall_mem_cons.mpr ⟨?_, ih⟩
    obtain ⟨r, answer⟩ := x
    cases r <;> trivial

theorem found_of_ok {intents : List Intent}
    (h : (a.gather conversation message).Run t (.ok intents)) : Found conversation message t := by
  obtain ⟨memory, t, rfl, hrest⟩ := Program.run_ask.mp h
  change (a.index.candidates a.hasEmbedder a.catalog message >>= _).Run t _ at hrest
  obtain ⟨t₁, candidates, t₂, rfl, hcandidates, hroute⟩ := Program.run_bind.mp hrest
  have hsearch : ∀ x ∈ t₁, x.1.OfFinding :=
    ((candidates_only ..).mono fun _ => Request.OfSearch.ofFinding).of_mem hcandidates
  obtain ⟨reply, t₂, rfl, hreplied⟩ := Program.run_ask.mp hroute
  obtain ⟨closed, t₂, rfl, hopen⟩ := Program.run_ask.mp hreplied
  cases closed with
  | true => cases (Program.run_done.mp hopen).2
  | false =>
    change (popPending conversation >>= _).Run t₂ _ at hopen
    obtain ⟨t₃, pending, t₄, rfl, hpop, hremember⟩ := Program.run_bind.mp hopen
    obtain ⟨kept, t₄, rfl, hend⟩ := Program.run_ask.mp hremember
    obtain ⟨rfl, -⟩ := Program.run_done.mp hend
    have hrest : Found conversation message (t₃ ++ _) :=
      .append (popPending_finds.of_mem hpop) (.remembered kept)
    exact .cons trivial (.append hsearch (.cons trivial (.cons trivial hrest)))

def answering (conversation : String) (kept : Except TurnError Unit) : Option String → Trace
  | none => []
  | some reply => [⟨.appendMemory conversation ⟨.assistant, reply⟩, kept⟩]

/-- A reply is remembered, or the turn is cut short before that. -/
theorem answered_of_keep {outcome : Batch.Outcome} {left : Dialogue (Except TurnError Unit)}
    (h : (keep conversation (.ok outcome)).After t left) :
    (∃ kept, t = answering conversation kept outcome.reply ∧ left.value? = some (.ok ())) ∨
      (t = [] ∧ left.value? = none) := by
  unfold keep at h
  dsimp only at h
  cases hreply : outcome.reply with
  | none =>
    rw [hreply] at h
    obtain ⟨rfl, rfl⟩ := Program.after_done.mp h
    exact .inl ⟨.ok (), rfl, rfl⟩
  | some reply =>
    rw [hreply] at h
    rcases Program.after_ask.mp h with ⟨rfl, rfl⟩ | ⟨kept, t, rfl, hend⟩
    · exact .inr ⟨rfl, rfl⟩
    · obtain ⟨rfl, rfl⟩ := Program.after_done.mp hend
      exact .inl ⟨kept, rfl, rfl⟩

/-- A turn whose intents come to an outcome. Then its reply is remembered, unless the service is
shut down before that, and the turn is closed. -/
inductive Concludes (a : Agent) (conversation message : String) (outcome : Batch.Outcome) :
    Trace → Except TurnError Unit → Prop where
  | intro {intents : List Intent} {found ran kept closed : Trace}
    {left : Dialogue (Except TurnError Unit)} :
    (a.gather conversation message).Run found (.ok intents) →
    (Batch.execute a.engine a.catalog conversation intents).run.Run ran (.ok outcome) →
    (keep conversation (.ok outcome)).After kept left →
    (closeTurn (left.value?.getD (.error .cancelled))).Run closed () →
    Concludes a conversation message outcome
      (.taken (.planning startNotice) :: (found ++ (ran ++ (kept ++ closed))))
      (left.value?.getD (.error .cancelled))

/-- A turn is handled without an error only if its intents come to an outcome. -/
theorem concludes_of_handles (h : a.Handles conversation message t (.ok ())) :
    ∃ outcome, a.Concludes conversation message outcome t (.ok ()) := by
  generalize hresult : (Except.ok () : Except TurnError Unit) = result at h
  cases h with
  | shutDown => cases hresult
  | @carriedOut t closed _ hrun hclose =>
    subst hresult
    rw [runTurn_eq] at hrun
    obtain ⟨taken, t, rfl, hrest⟩ := Program.run_send.mp hrun
    cases taken with
    | false => cases (Program.run_done.mp hrest).2
    | true =>
      obtain ⟨found, gathered, t, rfl, hgather, hcarry⟩ := Program.run_bind.mp hrest
      cases gathered with
      | error err => cases (Program.run_done.mp hcarry).2
      | ok intents =>
        obtain ⟨ran, executed, kept, rfl, hexecute, hkeep⟩ := Program.run_bind.mp hcarry
        cases executed with
        | error err => cases (Program.run_done.mp hkeep).2
        | ok outcome =>
          refine ⟨outcome, ?_⟩
          simp only [List.cons_append, List.append_assoc]
          exact .intro hgather hexecute hkeep hclose

theorem Concludes.handles {outcome : Batch.Outcome} {result : Except TurnError Unit}
    (h : a.Concludes conversation message outcome t result) :
    a.Handles conversation message t result := by
  cases h with
  | @intro intents found ran kept closed left hgather hexecute hkeep hclose =>
    have hcarry : (a.gather conversation message >>= a.carryOut conversation).After
        (found ++ (ran ++ kept)) left :=
      hgather.bind_after (Program.Run.bind_after hexecute hkeep)
    have hturn : (a.runTurn conversation message).After
        (Exchange.taken (.planning startNotice) :: (found ++ (ran ++ kept))) left := by
      rw [runTurn_eq]
      exact Program.after_ask.mpr (.inr ⟨true, _, rfl, hcarry⟩)
    have htrace : Exchange.taken (.planning startNotice) :: (found ++ (ran ++ (kept ++ closed))) =
        Exchange.taken (.planning startNotice) :: (found ++ (ran ++ kept)) ++ closed := by
      simp only [List.cons_append, List.append_assoc]
    rw [htrace]
    cases hleft : left.value? with
    | none =>
      rw [hleft] at hclose
      exact .shutDown hturn (Program.not_isDone_of_value? hleft) hclose
    | some result =>
      rw [hleft] at hclose
      cases Program.eq_done_of_value? hleft
      exact .carriedOut hturn hclose

/-- A turn that completes without an error, with its intents, their runs and the reply that is made
of them. -/
inductive Completed (a : Agent) (conversation message : String) (intents : List Intent)
    (runs : List Batch.IntentRun) (reply : Option String) : Trace → Prop where
  | intro {ended : Batch.Tally × Nat} {found ran finished : Trace}
    (kept : Except TurnError Unit) (heard : Bool) : Found conversation message found →
    Batch.Loop a.engine a.catalog conversation intents.length 1 intents {} runs ran
      (some (.ok ended)) →
    Batch.Finished ended.1 finished reply →
    Completed a conversation message intents runs reply
      (.taken (.planning startNotice) :: (found ++ (Batch.opening intents.length ++ (ran ++
        (Batch.clearing conversation ended.1.asked ++ (finished ++
          (answering conversation kept reply ++ [⟨.emit .done, heard⟩])))))))

theorem completed_of_handles (h : a.Handles conversation message t (.ok ())) :
    ∃ intents runs reply, a.Completed conversation message intents runs reply t := by
  obtain ⟨outcome, hconcludes⟩ := concludes_of_handles h
  generalize hresult : (Except.ok () : Except TurnError Unit) = result at hconcludes
  cases hconcludes with
  | @intro intents found ran kept closed left hgather hexecute hkeep hclose =>
    rcases answered_of_keep hkeep with ⟨answer, rfl, hleft⟩ | ⟨-, hleft⟩
    · rw [hleft] at hclose
      obtain ⟨heard, closed, rfl, hend⟩ := Program.run_send.mp hclose
      obtain ⟨rfl, -⟩ := Program.run_done.mp hend
      obtain ⟨runs, ran, ended, finished, rfl, hloop, hfinish⟩ := Batch.executed_of_ok hexecute
      refine ⟨intents, runs, outcome.reply, ?_⟩
      simp only [List.append_assoc]
      exact .intro answer heard (found_of_ok hgather) hloop (Batch.finished_of_ok hfinish)
    · rw [hleft] at hresult
      cases hresult

theorem starts_of_completed {intents : List Intent} {runs : List Batch.IntentRun}
    {reply : Option String} (h : a.Completed conversation message intents runs reply t) :
    t.events.filter Event.isSkillStart =
      runs.mapIdx fun n r => r.opening intents.length (1 + n) := by
  cases h with
  | @intro ended found ran finished kept heard hfound hloop hfinished =>
    have hlast : Trace.events (answering conversation kept reply ++ [⟨.emit .done, heard⟩]) =
        if heard then [.done] else [] := by
      cases reply <;> cases heard <;> rfl
    have hclearing : Trace.events (Batch.clearing conversation ended.1.asked) = [] := by
      cases ended.1.asked <;> rfl
    have hfarewell : (if heard then [.done] else []).filter Event.isSkillStart = [] := by
      cases heard <;> rfl
    rw [Trace.events_taken, Trace.events_append, hfound.events, Trace.events_append,
      Trace.events_append, Batch.events_of_loop hloop, Trace.events_append, hclearing,
      Trace.events_append, hlast, List.filter_cons_of_neg Bool.false_ne_true, List.nil_append,
      List.nil_append, List.filter_append, List.filter_append, List.filter_append,
      filter_isSkillStart_of_notices (Batch.notices_of_opening _),
      filter_isSkillStart_of_notices hfinished.notices, hfarewell,
      Batch.filter_isSkillStart_blocks (Batch.runs_of_loop hloop).valid, List.nil_append,
      List.append_nil, List.append_nil]

end Agent
end Switchboard
