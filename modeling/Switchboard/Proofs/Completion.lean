import Switchboard.Proofs.Course

/-! Runs that come to an outcome: whatever they were answered, their listener stayed to the end. -/
namespace Switchboard

namespace Dialogue
open Program

variable {α β : Type} {Gone : α → Prop} {Gone' : β → Prop}

/-- Where its listener is found to be gone the dialogue is over, with one of these values. -/
def Halts (Gone : α → Prop) : Dialogue α → Prop
  | Program.done _ => True
  | Program.ask r next => ∀ x, Halts Gone (next x) ∧
      (¬ Exchange.Attended ⟨r, x⟩ → ∃ a, next x = Program.done a ∧ Gone a)

theorem halts_bind {d : Dialogue α} {f : α → Dialogue β} (hd : Halts Gone d)
    (hf : ∀ a, d.Returns a → Halts Gone' (f a))
    (hgone : ∀ a, Gone a → ∃ b, f a = Program.done b ∧ Gone' b) : Halts Gone' (d >>= f) := by
  induction d with
  | done a => exact hf a (.done a)
  | ask r next ih =>
    intro x
    refine ⟨ih x (hd x).1 fun a h => hf a (.ask x h), fun hleft => ?_⟩
    obtain ⟨a, hover, ha⟩ := (hd x).2 hleft
    change ∃ b, (next x >>= f) = done b ∧ Gone' b
    rw [hover, done_bind]
    exact hgone a ha

theorem halts_of_work {d : Dialogue α} (hd : d.Only Request.OfWork) : Halts Gone d := by
  induction d with
  | done a => trivial
  | ask r next ih =>
    intro x
    refine ⟨ih x (hd.2 x), fun hleft => absurd ?_ hleft⟩
    have hwork := hd.1
    cases r <;> trivial

theorem halts_emit {event : Event} {d : Dialogue α} {a : α} (hd : Halts Gone d) (ha : Gone a) :
    Halts Gone (Dialogue.emit event >>= fun taken => if taken = true then d else pure a) := by
  intro taken
  cases taken with
  | true => exact ⟨hd, fun hleft => absurd rfl hleft⟩
  | false => exact ⟨trivial, fun _ => ⟨a, rfl, ha⟩⟩

theorem halts_isClosed {d : Dialogue α} {a : α} (hd : Halts Gone d) (ha : Gone a) :
    Halts Gone (Dialogue.isClosed >>= fun closed => if closed = true then pure a else d) := by
  intro closed
  cases closed with
  | true => exact ⟨trivial, fun _ => ⟨a, rfl, ha⟩⟩
  | false => exact ⟨hd, fun hleft => absurd rfl hleft⟩

/-- Where the listener left, the dialogue was over at once. -/
theorem left_of_halts {d : Dialogue α} {t : Trace} {a : α} (hd : Halts Gone d) (h : d.Run t a)
    (hleft : ¬ t.Attended) : ∃ t' x, t = t' ++ [x] ∧ ¬ x.Attended ∧ Gone a := by
  induction d generalizing t with
  | done b =>
    obtain ⟨rfl, -⟩ := run_done.mp h
    exact absurd Trace.attended_nil hleft
  | ask r next ih =>
    obtain ⟨x, t, rfl, hnext⟩ := run_ask.mp h
    by_cases hhere : Exchange.Attended ⟨r, x⟩
    · have hlater : ¬ Trace.Attended t := fun ha => hleft (Trace.attended_cons.mpr ⟨hhere, ha⟩)
      obtain ⟨t', y, rfl, hy⟩ := ih x (hd x).1 hnext hlater
      exact ⟨⟨r, x⟩ :: t', y, rfl, hy⟩
    · obtain ⟨b, hover, hb⟩ := (hd x).2 hhere
      rw [hover] at hnext
      obtain ⟨rfl, rfl⟩ := run_done.mp hnext
      exact ⟨[], _, rfl, hhere, hb⟩

/-- The listener of a dialogue that comes to another value was there to the end. -/
theorem attended_of_halts {d : Dialogue α} {t : Trace} {a : α} (hd : Halts Gone d)
    (h : d.Run t a) (ha : ¬ Gone a) : t.Attended := by
  apply Classical.byContradiction
  intro hleft
  obtain ⟨t', x, -, -, hgone⟩ := left_of_halts hd h hleft
  exact ha hgone

end Dialogue

namespace Engine
open Plan (Progress)

variable {e : Engine} {skill : Skill} {task : String} {s : State} {p p' : Progress} {t : Trace}
  {o : Outcome}

def Cancelled (r : Except TurnError State × Progress) : Prop := r.1 = .error .cancelled

private theorem announce_halts (event : Event) (next : State) (p : Progress) :
    Dialogue.Halts Cancelled (announce event next p) := Dialogue.halts_emit trivial rfl

private theorem announced_halts (event : Event) (p : Progress) {work : Stage}
    (hw : Dialogue.Halts Cancelled work) :
    Dialogue.Halts Cancelled (announced event p work) := Dialogue.halts_emit hw rfl

/-- Work comes before a stage meets the listener. -/
private theorem work_halts {α : Type} {d : Dialogue α} {f : α → Stage}
    (hd : d.Only Request.OfWork) (hf : ∀ a, Dialogue.Halts Cancelled (f a)) :
    Dialogue.Halts Cancelled (d >>= f) := by
  have hwork : Dialogue.Halts (fun _ => False) d := Dialogue.halts_of_work hd
  exact Dialogue.halts_bind hwork (fun a _ => hf a) fun _ h => h.elim

private theorem install_halts (planned : Except ModelError (List String)) (p : Progress)
    (start : List String → Progress → Progress) (event : List String → Event) :
    Dialogue.Halts Cancelled (install planned p start event) := by
  cases planned with
  | error err => trivial
  | ok steps => exact announce_halts _ _ _

/-- A stage is cancelled where its listener is found to be gone. -/
theorem transition_halts (e : Engine) (skill : Skill) (task : String) (s : State) (p : Progress) :
    Dialogue.Halts Cancelled (transition e skill task s p) := by
  cases s with
  | preload =>
    refine work_halts ?_ fun ⟨loaded, q⟩ => ?_
    · exact (preload_only skill p).mono fun _ => Request.OfLoad.ofWork
    · cases loaded <;> trivial
  | planning =>
    refine announced_halts _ p (work_halts ?_ fun planned => install_halts _ _ _ _)
    exact (plan_only task p).mono fun _ => Request.OfModel.ofWork
  | executing =>
    change Dialogue.Halts Cancelled (executing e task p)
    unfold executing
    split
    · trivial
    · split
      · trivial
      · refine announced_halts _ p (work_halts ?_ fun out => announce_halts _ _ _)
        exact (step_only ..).mono fun _ => Request.OfStep.ofWork
  | observing =>
    refine work_halts ((observe_only e task p).mono fun _ => Request.OfModel.ofWork)
      fun verdict => ?_
    split
    · exact announce_halts _ _ _
    · exact Dialogue.halts_emit trivial rfl
  | replanning reason =>
    refine work_halts ?_ fun planned => install_halts _ _ _ _
    exact (plan_only task p).mono fun _ => Request.OfModel.ofWork
  | askingUser =>
    change Dialogue.Halts Cancelled (askingUser e p)
    unfold askingUser
    split <;> exact announce_halts _ _ _
  | finalizing =>
    refine announced_halts _ p fun answer => ⟨?_, fun hleft => absurd trivial hleft⟩
    cases answer with
    | error err => trivial
    | ok text => exact announce_halts _ _ _
  | done => trivial

/-- A stage that is not cancelled is one of those for a listener who stays. -/
theorem step_of_not_cancelled {r : Except TurnError State}
    (h : (transition e skill task s p).Run t (r, p')) (hr : r ≠ .error .cancelled) :
    Step e skill task s p t r p' :=
  step_of_transition h (Dialogue.attended_of_halts (transition_halts e skill task s p) h hr)

/-- A run has its outcome only if its last event was taken. -/
private theorem taken_of_ok {event : Event} {out : Outcome}
    (h : (Dialogue.emit event >>= fun taken => if taken then pure (.ok out)
      else pure (.error .cancelled) : Dialogue (Except TurnError Outcome)).Run t (.ok o)) :
    t = [.taken event] ∧ o = out := by
  obtain ⟨taken, t, rfl, hend⟩ := Program.run_send.mp h
  cases taken with
  | false => cases (Program.run_done.mp hend).2
  | true =>
    obtain ⟨rfl, hout⟩ := Program.run_done.mp hend
    exact ⟨rfl, Except.ok.inj hout⟩

theorem course_of_ok (h : (runFrom e skill task s p).Run t (.ok o)) :
    Course e skill task s p t o := by
  induction s, p using stage_induction e skill task generalizing t with
  | done p =>
    rw [runFrom_done] at h
    obtain ⟨rfl, hout⟩ := Program.run_done.mp h
    cases hout
    exact .done p
  | stage s p hs ih =>
    rw [runFrom_of_ne hs] at h
    obtain ⟨closed, t, rfl, hopen⟩ := Program.run_send.mp h
    cases closed with
    | true => cases (Program.run_done.mp hopen).2
    | false =>
      obtain ⟨t₁, ⟨next, p'⟩, t₂, rfl, hstage, hrest⟩ := Program.run_bind.mp hopen
      cases next with
      | ok s' =>
        exact .stage hs (step_of_not_cancelled hstage nofun) (ih s' p' hstage.returns hrest)
      | error err =>
        change (fail err p').Run t₂ (.ok o) at hrest
        unfold fail at hrest
        split at hrest
        next => cases (Program.run_done.mp hrest).2
        next herr =>
          obtain ⟨rfl, rfl⟩ := taken_of_ok hrest
          exact .failed hs (step_of_not_cancelled hstage fun h => herr (Except.error.inj h)) herr

theorem answered_of_runDirect (h : (runDirect e skill task).Run t (.ok o)) :
    ∃ (t₁ : Trace) (answered : Except TurnError StepOutput) (event : Event),
      (answerDirectly e skill task).Run t₁ answered ∧
      t = t₁ ++ [Exchange.present, Exchange.taken event] ∧
      ((∃ out, answered = .ok out ∧ event = .result out.text ∧
          o = { reply := some out.text, toolCalls := out.toolCalls }) ∨
        ∃ err message, answered = .error err ∧ event = .error message ∧
          o = { failed := true }) := by
  rw [runDirect_eq] at h
  obtain ⟨t₁, answered, t₂, rfl, hanswer, hend⟩ := Program.run_bind.mp h
  obtain ⟨closed, t₂, rfl, hopen⟩ := Program.run_send.mp hend
  cases closed with
  | true => cases (Program.run_done.mp hopen).2
  | false =>
    cases answered with
    | ok out =>
      obtain ⟨rfl, rfl⟩ := taken_of_ok hopen
      exact ⟨t₁, _, _, hanswer, rfl, .inl ⟨out, rfl, rfl, rfl⟩⟩
    | error err =>
      obtain ⟨rfl, rfl⟩ := taken_of_ok hopen
      exact ⟨t₁, _, _, hanswer, rfl, .inr ⟨err, _, rfl, rfl, rfl⟩⟩

end Engine
end Switchboard
