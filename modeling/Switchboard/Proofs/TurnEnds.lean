import Switchboard.Proofs.BatchEnds
import Switchboard.Proofs.StepRounds
import Switchboard.Proofs.Termination

/-! How turns end in worlds that answer: where their steps return, and not where one of them goes on
for ever. -/
namespace Switchboard

namespace Trace

variable {c : Catalog} {x : Exchange} {t : Trace}

theorem undisturbed_cons (ha : x.Attended) (hc : x.Prompted c) (hs : x.StoreWorks)
    (ht : t.Undisturbed c) : Undisturbed c (x :: t) :=
  ⟨attended_cons.mpr ⟨ha, ht.attended⟩, prompted_cons.mpr ⟨hc, ht.prompted⟩,
    storesWork_cons.mpr ⟨hs, ht.storesWork⟩⟩

end Trace

namespace Engine

variable {e : Engine} {skill : Skill} {task : String}

theorem answerDirectly_bySteps : BySteps e (answerDirectly e skill task) := by
  have hload : (preload skill (.start 0)).Only (· ≠ .stall) :=
    (preload_only skill (.start 0)).mono fun r h => by rintro rfl; exact h
  refine (BySteps.of_only hload).bind fun ⟨loaded, p⟩ _ => ?_
  cases loaded with
  | error err => exact .done _
  | ok u => exact .taking p.tools _ _ fun out _ => .done _

theorem concludeDirectly_only (answered : Except TurnError StepOutput) :
    (concludeDirectly answered).Only (· ≠ .stall) := by
  refine ⟨by nofun, fun closed => ?_⟩
  cases closed with
  | true => trivial
  | false =>
    cases answered with
    | ok out => exact ⟨by nofun, fun taken => by cases taken <;> trivial⟩
    | error err => exact ⟨by nofun, fun taken => by cases taken <;> trivial⟩

theorem execute_bySteps (asks : Nat) : BySteps e (execute e skill task asks) := by
  unfold execute
  split
  · exact runFrom_bySteps ..
  · rw [runDirect_eq]
    exact answerDirectly_bySteps.bind fun answered _ => .of_only (concludeDirectly_only answered)

end Engine

namespace Batch
open Engine (BySteps)

variable {e : Engine} {c : Catalog} {conversation : String} {total : Nat} {α β : Type}

theorem bySteps_bind {x : Work α} {f : α → Work β} (hx : BySteps e x.run)
    (hf : ∀ a, BySteps e (f a).run) : BySteps e (x >>= f).run := by
  refine BySteps.bind hx fun r _ => ?_
  cases r with
  | ok a => exact hf a
  | error err => exact .done _

theorem bySteps_pure (r : Except TurnError α) : BySteps e (attempt (pure r)).run := .done r

theorem bySteps_tell (event : Event) : BySteps e (tell event).run := by
  refine .ask (by nofun) fun taken => ?_
  cases taken <;> exact .done _

section
variable {w : Oracle} {past t : Trace} {x : Work α}

theorem endless_bind (h : w.Endless past x.run) (f : α → Work β) :
    w.Endless past (x >>= f).run := Oracle.Endless.bind h _

theorem endless_of_run {a : α} {f : α → Work β} (hx : x.run.Run t (.ok a))
    (hg : w.Gives past t) (h : w.Endless (past ++ t) (f a).run) :
    w.Endless past (x >>= f).run := Oracle.Endless.of_run hx hg h

end

theorem runIntent_bySteps (number : Nat) (i : Intent) :
    BySteps e (runIntent e c conversation total number i).run := by
  refine bySteps_bind (bySteps_pure _) fun skill => bySteps_bind (bySteps_tell _) fun _ => ?_
  refine bySteps_bind (BySteps.send (by simp)) fun asks => ?_
  refine bySteps_bind (Engine.execute_bySteps asks) fun outcome => ?_
  exact bySteps_bind (BySteps.send (by simp)) fun _ => .done _

theorem runIntents_bySteps (number : Nat) (intents : List Intent) (tally : Tally) :
    BySteps e (runIntents e c conversation total number intents tally).run := by
  induction intents generalizing number tally with
  | nil => exact .done _
  | cons i rest ih =>
    unfold runIntents
    split
    · exact bySteps_bind (BySteps.send (by simp)) fun _ => .done _
    · exact bySteps_bind (runIntent_bySteps number i) fun outcome => ih _ _

theorem execute_bySteps (intents : List Intent) :
    BySteps e (execute e c conversation intents).run := by
  have hconclude (ended : Tally × Nat) : BySteps e (conclude conversation ended).run :=
    .of_only ((conclude_only ended).mono fun r h => by rintro rfl; exact h)
  rw [execute_eq]
  refine bySteps_bind ?_ fun _ => bySteps_bind (runIntents_bySteps ..) hconclude
  split
  · exact bySteps_tell _
  · exact .done _

end Batch

namespace Agent
open Engine (BySteps LetsReturn)

variable {a : Agent} {conversation message : String} {t : Trace}

theorem carryOut_bySteps (found : Except TurnError (List Intent)) :
    BySteps a.engine (a.carryOut conversation found) := by
  cases found with
  | error err => exact .done _
  | ok intents =>
    refine (Batch.execute_bySteps intents).bind fun r _ => ?_
    unfold keep
    split
    · exact .done _
    · split
      · exact .ask (by nofun) fun _ => .done _
      · exact .done _

/-- A turn waits for nothing but answers, and for its steps. -/
theorem turn_bySteps : BySteps a.engine (a.turn conversation message) := by
  have hgather : BySteps a.engine (a.gather conversation message) :=
    .of_only (gather_only.mono fun r h => by rintro rfl; exact h)
  have hclose (result : Except TurnError Unit) : BySteps a.engine (closeTurn result) :=
    .of_only ((closeTurn_only result).mono fun r h => by rintro rfl; exact h)
  refine BySteps.bind ?_ fun result _ => hclose result
  rw [runTurn_eq]
  refine .ask (by nofun) fun taken => ?_
  cases taken with
  | true => exact hgather.bind fun found _ => carryOut_bySteps found
  | false => exact .done _

/-- Every turn whose listener stays and whose stores do not fail has an account of its events, be
it carried out or shut down on the way. It comes to its end where each of its steps returns,
whatever else it is answered. -/
theorem turn_events (a : Agent) (conversation message : String) :
    (∀ (t : Trace) (result : Except TurnError Unit), a.Handles conversation message t result →
      t.Undisturbed a.catalog → ∃ runs, a.Account conversation message t result runs) ∧
    ∀ (w : Oracle) (past : Trace), w.Answers →
      (∀ t, w.Gives past t → t.Undisturbed a.catalog) →
      LetsReturn a.engine w past (a.turn conversation message) →
      ∃ t result runs, (a.turn conversation message).Run t () ∧ w.Gives past t ∧
        a.Account conversation message t result runs ∧ result ≠ .error .cancelled := by
  refine ⟨fun t result => account_of_handles, fun w past hw hcalm hsteps => ?_⟩
  obtain ⟨t, _, hrun, hg⟩ := turn_bySteps.run hw hsteps
  obtain ⟨t₁, result, t₂, rfl, hturn, hclose⟩ := Program.run_bind.mp hrun
  have ht := hcalm _ hg
  obtain ⟨intents, runs, hcarried, haccount⟩ := account_of_run hturn hclose ht
  refine ⟨t₁ ++ t₂, result, runs, hrun, hg, haccount, ?_⟩
  rintro rfl
  cases error_of_carried hcarried (Trace.undisturbed_append.mp ht).1

theorem undisturbed_serving {c : Catalog} {reply : String} {past : Trace}
    (h : (Batch.serving c reply).Gives past t) : t.Undisturbed c := by
  have hprompted := (Batch.prompts_serving c reply).of_gives h
  induction t generalizing past with
  | nil => exact ⟨Trace.attended_nil, hprompted, List.forall_mem_nil _⟩
  | cons x t ih =>
    obtain ⟨hx, ht⟩ := Oracle.gives_cons.mp h
    obtain ⟨hprompt, hrest⟩ := Trace.prompted_cons.mp hprompted
    obtain ⟨r, answer⟩ := x
    refine Trace.undisturbed_cons ?_ hprompt ?_ (ih ht hrest)
    · cases r <;> first | exact (Option.some.inj hx).symm | trivial
    · cases r <;> first
        | exact (Option.some.inj hx).symm
        | exact ⟨_, (Option.some.inj hx).symm⟩
        | trivial

theorem turn_events_sample : let w := Batch.serving sampleAgent.catalog "好"
    (∃ t, sampleAgent.Handles "c" "m" t (.ok ()) ∧ t.Undisturbed sampleAgent.catalog ∧
      ∃ runs, sampleAgent.Account "c" "m" t (.ok ()) runs) ∧
    w.Answers ∧ (∀ t, w.Gives [] t → t.Undisturbed sampleAgent.catalog) ∧
    LetsReturn sampleAgent.engine w [] (sampleAgent.turn "c" "m") ∧
    ∃ t result runs, (sampleAgent.turn "c" "m").Run t () ∧ w.Gives [] t ∧
      sampleAgent.Account "c" "m" t result runs ∧ result ≠ .error .cancelled := by
  intro w
  obtain ⟨haccount, hends⟩ := turn_events sampleAgent "c" "m"
  obtain ⟨t, t', hrun, hclose, ha, hc, s, hs, -⟩ := turn_sample
  have ht : Trace.Undisturbed sampleAgent.catalog (t ++ t') :=
    ⟨ha, hc, Stores.storesWork_of_serve hs⟩
  have hhandles : sampleAgent.Handles "c" "m" (t ++ t') (.ok ()) := .carriedOut hrun hclose
  have hw : w.Answers := Batch.answers_serving _ _
  have hcalm : ∀ t, w.Gives [] t → t.Undisturbed sampleAgent.catalog :=
    fun t => undisturbed_serving
  have hsteps : LetsReturn sampleAgent.engine w [] (sampleAgent.turn "c" "m") := by
    intro t bound system user rest _ _
    have hstep := Engine.step_run (rfl : ToolCall.parse? "好" = none) 0 bound 5 system user
    exact ⟨_, _, hstep, rfl, trivial⟩
  exact ⟨⟨_, hhandles, ht, haccount _ _ hhandles ht⟩, hw, hcalm, hsteps,
    hends w [] hw hcalm hsteps⟩

def patientAgent (patience : Nat) : Agent :=
  { sampleAgent with engine := ⟨{ mode := .direct }, patience⟩ }

/-- The first step of its run already has no end. -/
theorem endless_run (patience : Nat) (past : Trace) :
    (Batch.serving sampleAgent.catalog Engine.refundCall).Endless past
      ((patientAgent patience).engine.execute Engine.sampleSkill "m" 0) := by
  change Oracle.Endless _ _ (Engine.runDirect _ _ _)
  rw [Engine.runDirect_eq]
  refine Oracle.Endless.bind ?_ _
  refine .of_run (Engine.preload_run rfl _ "p") ⟨rfl, trivial⟩ (Oracle.Endless.bind ?_ _)
  exact Engine.endless_of_misses (fun _ _ => rfl) Engine.parse?_refundCall rfl (Nat.succ_pos 4)

theorem endless_runIntent (patience : Nat) (past : Trace) :
    (Batch.serving sampleAgent.catalog Engine.refundCall).Endless past
      (Batch.runIntent (patientAgent patience).engine sampleAgent.catalog "c" 1 1
        ⟨"weather", "m"⟩).run := by
  refine Batch.endless_of_run (t := []) (.here _) trivial ?_
  refine Batch.endless_of_run (Batch.tell_run _) ⟨rfl, trivial⟩ ?_
  exact Oracle.Endless.ask (x := .ok 0) rfl (Batch.endless_bind (endless_run patience _) _)

theorem endless_turn (patience : Nat) :
    (Batch.serving sampleAgent.catalog Engine.refundCall).Endless []
      ((patientAgent patience).runTurn "c" "m") := by
  obtain ⟨messages, hgather⟩ := gather_run (a := patientAgent patience) rfl "c" "m"
    (.ok Engine.refundCall) []
  have hintents : Intent.merge (Route.intentsOf (patientAgent patience).catalog "m"
      (.ok Engine.refundCall)) [] = [⟨"weather", "m"⟩] := by
    change Intent.merge (Route.intentsOf sampleAgent.catalog "m" (.ok Engine.refundCall)) [] = _
    decide +kernel
  rw [hintents] at hgather
  rw [runTurn_eq]
  refine .ask (x := true) rfl ?_
  change Oracle.Endless _ _ ((patientAgent patience).gather "c" "m" >>= _)
  refine .of_run hgather ⟨rfl, rfl, rfl, rfl, rfl, trivial⟩ (Oracle.Endless.bind ?_ _)
  rw [Batch.execute_eq]
  refine Batch.endless_of_run (t := []) (.here _) trivial (Batch.endless_bind ?_ _)
  exact Batch.endless_bind (endless_runIntent patience _) _

/-- Where the model only calls a tool that is not bound, a turn that nothing disturbs has no end, and
however far it has come its listener has not been told of one. -/
theorem turn_endless : let w := Batch.serving sampleAgent.catalog Engine.refundCall
    w.Answers ∧ (∀ t, w.Gives [] t → t.Undisturbed sampleAgent.catalog) ∧
    ∀ (patience : Nat) (t : Trace) (left : Dialogue Unit),
      ((patientAgent patience).turn "c" "m").After t left → w.Gives [] t →
      ¬ left.IsDone ∧ Event.done ∉ t.events := by
  intro w
  refine ⟨Batch.answers_serving _ _, fun t => undisturbed_serving, ?_⟩
  intro patience t left hafter hg
  rcases Program.after_bind.mp hafter with ⟨d, hd, hgoing, rfl⟩ | ⟨t₁, result, t₂, rfl, hrun, -⟩
  · refine ⟨Program.not_isDone_bind hgoing, ?_⟩
    obtain ⟨intents, runs, hcarried⟩ := carried_of_after hd (undisturbed_serving hg)
    obtain ⟨leading, summary, htold⟩ := told_of_carried hcarried (undisturbed_serving hg) []
    exact done_notMem_of_told (runs_of_carried hcarried []).valid htold
  · exact absurd hrun (endless_turn patience t₁ result (Oracle.gives_append.mp hg).1)

end Agent
end Switchboard
