import Switchboard.Proofs.CompletedTurns

/-! What a turn replies, what its listener sees of it and what is remembered. -/
namespace Switchboard

def Event.result? : Event → Option String
  | .result content => some content
  | _ => none

namespace Trace

def results (t : Trace) : List String := t.events.filterMap Event.result?

@[simp] theorem results_append (t t' : Trace) : results (t ++ t') = results t ++ results t' := by
  rw [results, events_append, List.filterMap_append]
  rfl

theorem results_of_events_eq_nil {t : Trace} (h : t.events = []) : t.results = [] := by
  rw [results, h]
  rfl

end Trace

namespace Engine
open Plan (Progress)

variable {e : Engine} {skill : Skill} {task : String} {s s' : State} {p p' : Progress} {t : Trace}
  {o : Outcome}

/-- A run tells of its reply when it is done, and of no result before that. -/
theorem results_of_step {r : Except TurnError State} (h : Step e skill task s p t r p')
    (hp : p.reply = none) :
    t.results = p'.reply.toList ∧ (r ≠ .ok .done → p'.reply = none) := by
  have hnone : (p.reply.toList : List String) = [] := by rw [hp]; rfl
  cases h with
  | refused | asked | answered => exact ⟨rfl, fun hne => absurd rfl hne⟩
  | unloaded | finished | questioned | unanswered | rested => exact ⟨hnone.symm, fun _ => hp⟩
  | loaded _ _ _ hrun =>
    exact ⟨(Trace.results_of_events_eq_nil (events_of_preload hrun)).trans hnone.symm, fun _ => hp⟩
  | planned _ hrun =>
    refine ⟨?_, fun _ => hp⟩
    rw [Trace.results, Trace.events_taken, Trace.events_append, events_of_plan hrun]
    exact hnone.symm
  | unplanned _ hrun =>
    refine ⟨?_, fun _ => hp⟩
    rw [Trace.results, Trace.events_taken, events_of_plan hrun]
    exact hnone.symm
  | executed _ _ _ hrun =>
    refine ⟨?_, fun _ => hp⟩
    rw [Trace.results, Trace.events_taken, Trace.events_append, events_of_step hrun]
    exact hnone.symm
  | rejected _ hrun | accepted _ hrun =>
    refine ⟨?_, fun _ => hp⟩
    rw [Trace.results, Trace.events_append, events_of_observe hrun]
    exact hnone.symm
  | replanned _ _ hrun =>
    refine ⟨?_, fun _ => hp⟩
    rw [Trace.results, Trace.events_append, events_of_plan hrun]
    exact hnone.symm
  | notReplanned _ _ hrun =>
    exact ⟨(Trace.results_of_events_eq_nil (events_of_plan hrun)).trans hnone.symm, fun _ => hp⟩

/-- The results of a run are its reply, and one that fails has none. -/
theorem results_of_course (h : Course e skill task s p t o) (hp : p.reply = none) (hs : s ≠ .done) :
    t.results = o.reply.toList ∧ (o.failed = true → o.reply = none) := by
  -- Only the stage that ends the run may reply, so the reply is still none before each other stage.
  induction h with
  | done => exact absurd rfl hs
  | @stage s s' p p' t t' o _ hstep hrest ih =>
    obtain ⟨hresults, hreply⟩ := results_of_step hstep hp
    change Trace.results (t ++ t') = _ ∧ _
    rw [Trace.results_append, hresults]
    by_cases hdone : s' = .done
    · subst hdone
      obtain ⟨rfl, rfl⟩ := eq_of_course_done hrest
      exact ⟨List.append_nil _, nofun⟩
    · have hreply := hreply fun hok => hdone (Except.ok.inj hok)
      rw [hreply]
      exact ih hreply hdone
  | @failed s p p' t err _ hstep =>
    obtain ⟨hresults, hreply⟩ := results_of_step hstep hp
    change Trace.results (t ++ [.taken (failure err)]) = _ ∧ _
    rw [Trace.results_append, hresults]
    exact ⟨List.append_nil _, fun _ => hreply nofun⟩

/-- The listener sees the reply of a run as its only result. -/
theorem results_of_execute {asks : Nat} (h : (e.execute skill task asks).Run t (.ok o)) :
    t.results = o.reply.toList ∧ (o.failed = true → o.reply = none) := by
  unfold execute at h
  split at h
  · exact results_of_course (course_of_ok h) rfl nofun
  · obtain ⟨t, answered, event, hanswer, rfl, hend⟩ := answered_of_runDirect h
    rw [Trace.results_append,
      Trace.results_of_events_eq_nil (Dialogue.events_of_work answerDirectly_only hanswer)]
    obtain ⟨out, -, rfl, rfl⟩ | ⟨err, message, -, rfl, rfl⟩ := hend
    · exact ⟨rfl, nofun⟩
    · exact ⟨rfl, fun _ => rfl⟩

end Engine

namespace Batch

variable {e : Engine} {c : Catalog} {conversation : String} {total number : Nat} {t : Trace}
  {intents : List Intent} {tally : Tally} {runs : List IntentRun}

def Tally.shown (tally : Tally) : Option String :=
  tally.question.or (tally.results.getLast?.map (·.2))

def Tally.replies (tally : Tally) : List String := tally.results.map (·.2) ++ tally.question.toList

theorem Tally.shown_eq (tally : Tally) : tally.shown = tally.replies.getLast? := by
  unfold shown replies
  cases tally.question with
  | none => simp
  | some question => simp

theorem replies_add {o : Engine.Outcome} (hquestion : tally.question = none)
    (hfailed : o.failed = true → o.reply = none) (task : String) :
    (tally.add task o).replies = tally.replies ++ o.reply.toList := by
  unfold Tally.add Tally.replies
  dsimp only
  rw [hquestion, Option.toList_none, List.append_nil]
  split
  · rfl
  · split
    next content hreply _ =>
      dsimp only
      rw [hreply, List.map_append, Option.toList_none, List.append_nil]
      rfl
    next hother =>
      have hreply : o.reply = none := by
        cases hreply : o.reply with
        | none => rfl
        | some content =>
          cases hfails : o.failed with
          | true => exact hreply.symm.trans (hfailed hfails)
          | false => exact absurd hfails (hother content hreply)
      dsimp only
      rw [hreply]

theorem question_add {o : Engine.Outcome}
    (hquestion : tally.stopped = false → tally.question = none) (task : String) :
    (tally.add task o).stopped = false → (tally.add task o).question = none := by
  unfold Tally.add
  dsimp only
  split
  · exact nofun
  · split <;> exact hquestion

theorem results_of_part {i : Intent} {r : IntentRun} {o : Engine.Outcome}
    (h : Part e c conversation total number i (some r) t (some (.ok o))) :
    t.results = o.reply.toList ∧ (o.failed = true → o.reply = none) := by
  cases h with
  | ran hi hvalid ho =>
    obtain ⟨hresults, hfailed⟩ := Engine.results_of_execute (hvalid.run ho)
    refine ⟨?_, hfailed⟩
    change Trace.results (r.trace ++ [r.counted conversation o]) = _
    rw [Trace.results_append, hresults]
    exact List.append_nil _

theorem replies_of_loop {ended : Tally × Nat}
    (h : Loop e c conversation total number intents tally runs t (some (.ok ended)))
    (hquestion : tally.stopped = false → tally.question = none) :
    ended.1.replies = tally.replies ++ t.results := by
  -- The tally carries the induction: there is a question in it only once the batch has stopped.
  generalize hended : some (Except.ok ended) = out at h
  induction h with
  | unsaved | failed | cut => cases hended
  | finished | saved =>
    cases hended
    exact (List.append_nil _).symm
  | @ran number i rest tally r o runs t t' out hgoing hpart _ ih =>
    obtain ⟨hresults, hfailed⟩ := results_of_part hpart
    rw [ih (question_add hquestion i.task) hended, replies_add (hquestion hgoing) hfailed,
      Trace.results_append, hresults, List.append_assoc]

theorem results_of_opening (total : Nat) : (opening total).results = [] := by
  unfold opening
  split <;> rfl

theorem Finished.reply_eq {reply : Option String} (h : Finished tally t reply) :
    reply = t.results.getLast?.or tally.shown := by
  cases h with
  | asked hquestion hresults =>
    rw [Tally.shown, hquestion]
    rfl
  | silent hquestion hresults | single hquestion hresults =>
    rw [Tally.shown, hquestion, hresults]
    rfl
  | askedAfter | summarized => rfl

/-- The listener sees the replies of the intents of a turn, and then what is told of them all. -/
theorem results_of_execute {outcome : Outcome}
    (h : (execute e c conversation intents).run.Run t (.ok outcome)) :
    ∃ runs ran ended finished,
      Loop e c conversation intents.length 1 intents {} runs ran (some (.ok ended)) ∧
      (finish ended.1).run.Run finished (.ok outcome.reply) ∧
      t.results = ended.1.replies ++ Trace.results finished := by
  obtain ⟨runs, ran, ended, finished, rfl, hloop, hfinish⟩ := executed_of_ok h
  have hclearing : (clearing conversation ended.1.asked).results = [] := by
    cases ended.1.asked <;> rfl
  refine ⟨runs, ran, ended, finished, hloop, hfinish, ?_⟩
  rw [replies_of_loop hloop fun _ => rfl, Trace.results_append, results_of_opening,
    Trace.results_append, Trace.results_append, hclearing]
  rfl

/-- The reply of the intents of a turn is the last result that the listener saw of them. -/
theorem reply_of_execute {outcome : Outcome}
    (h : (execute e c conversation intents).run.Run t (.ok outcome)) :
    outcome.reply = t.results.getLast? := by
  obtain ⟨-, -, ended, finished, -, hfinish, hresults⟩ := results_of_execute h
  rw [hresults, List.getLast?_append, (finished_of_ok hfinish).reply_eq, Tally.shown_eq]

end Batch
end Switchboard
