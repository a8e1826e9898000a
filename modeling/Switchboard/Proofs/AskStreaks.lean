import Switchboard.Proofs.CompletedTurns
import Switchboard.Proofs.PendingIntents
import Switchboard.Proofs.StoredStreaks

/-! How often in a row each skill asks, over the turns of a conversation. -/
namespace Switchboard

namespace Engine
open Plan (Progress)

variable {e : Engine} {skill : Skill} {task : String} {s s' : State} {p p' : Progress} {t : Trace}
  {o : Outcome}

/-- A stage asks only if the questions are not used up, and the run is done with it. -/
theorem asks_of_step {r : Except TurnError State} (h : Step e skill task s p t r p')
    (hp : p.asking = false) :
    (p'.asking = false ∧ p'.asks = p.asks) ∨
      (r = .ok .done ∧ p'.asks = p.asks + 1 ∧ p.asks < e.limits.maxAsks) := by
  cases h with
  | refused => exact .inl ⟨rfl, rfl⟩
  | asked p hlt => exact .inr ⟨rfl, rfl, hlt⟩
  | _ => exact .inl ⟨hp, rfl⟩

/-- A run that ends in a question counts it, and had questions left. -/
theorem asks_of_course (h : Course e skill task s p t o) (hp : p.asking = false)
    (ho : o.asking = true) : o.asks = p.asks + 1 ∧ p.asks < e.limits.maxAsks := by
  induction h with
  | done p => exact absurd (hp.symm.trans ho) Bool.false_ne_true
  | stage hs hstep hrest ih =>
    rcases asks_of_step hstep hp with ⟨hasking, hasks⟩ | ⟨hdone, hasks, hlt⟩
    · rw [← hasks]
      exact ih hasking ho
    · cases hdone
      obtain ⟨-, rfl⟩ := eq_of_course_done hrest
      exact ⟨hasks, hlt⟩
  | failed hs hstep =>
    rcases asks_of_step hstep hp with ⟨hasking, -⟩ | ⟨hdone, -⟩
    · exact absurd (hasking.symm.trans ho) Bool.false_ne_true
    · cases hdone

/-- A run at a step that asks the user ends in the question or in an apology. -/
theorem asking_or_apology {current : String} (h : Course e skill task .executing p t o)
    (hc : p.currentStep? = some current) (hq : Plan.asksUser current = true) :
    o.asking = true ∨ (o.reply = some apology ∧ o.asking = false) := by
  cases h with
  | failed _ hstep => cases hstep
  | stage _ hstep hrest =>
    cases hstep with
    | finished _ hnone =>
      rw [hc] at hnone
      cases hnone
    | executed _ hc' hq' =>
      rw [hc] at hc'
      cases hc'
      exact absurd (hq.symm.trans hq') Bool.true_eq_false.mp
    | questioned =>
      cases hrest with
      | failed _ hstep => cases hstep
      | stage _ hstep hrest =>
        cases hstep with
        | refused =>
          obtain ⟨-, rfl⟩ := eq_of_course_done hrest
          exact .inr ⟨rfl, rfl⟩
        | asked =>
          obtain ⟨-, rfl⟩ := eq_of_course_done hrest
          exact .inl rfl

/-- The stages by which a run comes from one to another, with the exchanges on the way. -/
inductive Leads (e : Engine) (skill : Skill) (task : String) :
    State → Progress → Trace → State → Progress → Prop where
  | here (s : State) (p : Progress) : Leads e skill task s p [] s p
  | stage {s s' s'' : State} {p p' p'' : Progress} {t t' : Trace} : s ≠ .done →
    (transition e skill task s p).Run t (.ok s', p') → Leads e skill task s' p' t' s'' p'' →
    Leads e skill task s p (.present :: (t ++ t')) s'' p''

/-- A run goes on from where its stages lead. -/
theorem after_of_leads (h : Leads e skill task s p t s' p') :
    (runFrom e skill task s p).After t (runFrom e skill task s' p') := by
  induction h with
  | here => exact .here _
  | stage hs hstage _ ih => exact (after_of_stage hs hstage).append ih

/-- The run comes to a step of its plan that asks the user. -/
def ReachesQuestion (e : Engine) (skill : Skill) (task : String) (asks : Nat) (t : Trace) : Prop :=
  ∃ t₁ p current, t₁ <+: t ∧ Leads e skill task .preload (.start asks) t₁ .executing p ∧
    p.currentStep? = some current ∧ Plan.asksUser current = true

variable {asks : Nat}

theorem asks_of_execute (hmode : e.limits.mode = .planExecute)
    (h : (e.execute skill task asks).Run t (.ok o)) (ho : o.asking = true) :
    o.asks = asks + 1 ∧ asks < e.limits.maxAsks := by
  rw [execute, hmode] at h
  exact asks_of_course (course_of_ok h) rfl ho

/-- Where the questions are used up, a run does not ask but says that it cannot go on. -/
theorem apology_of_execute (hmode : e.limits.mode = .planExecute)
    (h : (e.execute skill task asks).Run t (.ok o)) (hmax : e.limits.maxAsks ≤ asks)
    (hreach : e.ReachesQuestion skill task asks t) :
    o.reply = some apology ∧ o.asking = false := by
  have hrefuses : o.asking ≠ true := fun hasking =>
    absurd hmax (Nat.not_le_of_lt (asks_of_execute hmode h hasking).2)
  obtain ⟨t₁, p, current, ⟨t₂, rfl⟩, hleads, hc, hq⟩ := hreach
  rw [execute, hmode] at h
  have hcourse := course_of_ok ((after_of_leads hleads).run h)
  exact (asking_or_apology hcourse hc hq).resolve_left hrefuses

end Engine

namespace Batch

/-- What counts for the streaks of questions: that a run of a skill ended in a question or not, and
that a turn ended in which some run did or none. -/
inductive Mark where
  | run (skill : String) (asked : Bool)
  | turn (asked : Bool)

/-- A streak ends with a run of the skill that did not ask, and with a turn in which none did. -/
def Mark.resets (skill : String) : Mark → Bool
  | .run name asked => name = skill && !asked
  | .turn asked => !asked

def Mark.counts (skill : String) : Mark → Bool
  | .run name asked => name = skill && asked
  | .turn _ => false

/-- How many runs of the skill asked since its streak last ended. -/
def streakOf (skill : String) (marks : List Mark) : Nat :=
  (marks.reverse.takeWhile fun m => !m.resets skill).countP (Mark.counts skill)

theorem streakOf_concat (skill : String) (marks : List Mark) (m : Mark) :
    streakOf skill (marks ++ [m]) =
      if m.resets skill then 0 else streakOf skill marks + if m.counts skill then 1 else 0 := by
  rw [streakOf, List.reverse_append, List.reverse_singleton, List.singleton_append,
    List.takeWhile_cons]
  cases hresets : m.resets skill with
  | true => rfl
  | false => exact List.countP_cons

theorem streakOf_le_length (skill : String) (marks : List Mark) :
    streakOf skill marks ≤ marks.length := by
  refine Nat.le_trans List.countP_le_length (Nat.le_trans (List.takeWhile_prefix _).length_le ?_)
  exact Nat.le_of_eq List.length_reverse

theorem streakOf_run (skill name : String) (marks : List Mark) (asked : Bool) :
    streakOf skill (marks ++ [.run name asked]) =
      if name = skill then if asked then streakOf skill marks + 1 else 0
      else streakOf skill marks := by
  rw [streakOf_concat]
  by_cases h : name = skill <;> cases asked <;> simp [Mark.resets, Mark.counts, h]

theorem streakOf_turn (skill : String) (marks : List Mark) (asked : Bool) :
    streakOf skill (marks ++ [.turn asked]) = if asked then streakOf skill marks else 0 := by
  rw [streakOf_concat]
  cases asked <;> rfl

namespace IntentRun

def asked (r : IntentRun) : Bool := r.outcome.any (·.asking)

def mark (r : IntentRun) : Mark := .run r.skill.name r.asked

def exchanges (conversation : String) (total number : Nat) (r : IntentRun) (o : Engine.Outcome) :
    Trace :=
  .taken (r.opening total number) :: r.seeded conversation ::
    (r.trace ++ [r.counted conversation o])

end IntentRun

def marksOf (runs : List IntentRun) : List Mark :=
  runs.map IntentRun.mark ++ [.turn (runs.any IntentRun.asked)]

/-- The stores hold the streak of every skill, and it is within the limit. -/
def Streaks (e : Engine) (conversation : String) (s : Stores) (marks : List Mark) : Prop :=
  ∀ skill, s.streak conversation skill = streakOf skill marks ∧
    streakOf skill marks ≤ e.limits.maxAsks

/-- A run that begins with the streak of its skill and leaves the streaks as they are then. If no
question is left to it where its plan asks, it replies that it cannot go on, and its skill's streak
is over. -/
structure IntentRun.Counted (e : Engine) (c : Catalog) (conversation : String) (marks : List Mark)
    (r : IntentRun) (o : Engine.Outcome) (after : Stores) : Prop where
  valid : r.Valid e c
  outcome : r.outcome = some o
  seed : r.asks = streakOf r.skill.name marks
  streaks : Streaks e conversation after (marks ++ [r.mark])
  refused : r.asks = e.limits.maxAsks →
    e.ReachesQuestion r.skill r.intent.task r.asks r.trace →
      o.reply = some Engine.apology ∧ o.asking = false ∧
        after.streak conversation r.skill.name = 0

/-- The runs of a turn after what has happened, with the exchanges and the stores of each. -/
inductive RunsCounted (e : Engine) (c : Catalog) (conversation : String) (total : Nat) :
    Nat → List Mark → Stores → List IntentRun → Trace → Stores → Prop where
  | nil (number : Nat) (marks : List Mark) (s : Stores) :
    RunsCounted e c conversation total number marks s [] [] s
  | cons {number : Nat} {marks : List Mark} {s s₁ s' : Stores} {r : IntentRun}
    {o : Engine.Outcome} {runs : List IntentRun} {t : Trace} :
    s.Serve (r.exchanges conversation total number o) s₁ →
    r.Counted e c conversation marks o s₁ →
    RunsCounted e c conversation total (number + 1) (marks ++ [r.mark]) s₁ runs t s' →
    RunsCounted e c conversation total number marks s (r :: runs)
      (r.exchanges conversation total number o ++ t) s'

variable {e : Engine} {c : Catalog} {conversation : String} {total number : Nat}
  {marks : List Mark} {t : Trace} {s s' : Stores}

theorem Streaks.of_serve (h : Streaks e conversation s marks) (hs : s.Serve t s')
    (hk : ∀ x ∈ t, x.1.KeepsStreaks) : Streaks e conversation s' marks := by
  intro skill
  rw [Stores.streak_of_serve hs hk]
  exact h skill

/-- A run begins with the streak of its skill, and all that it changes in the stores is that. -/
theorem serve_exchanges {r : IntentRun} {o : Engine.Outcome} (hvalid : r.Valid e c)
    (hs : s.Serve (r.exchanges conversation total number o) s') :
    r.asks = s.streak conversation r.skill.name ∧
      s' = s.setStreak conversation r.skill.name (if o.asking then o.asks else 0) := by
  obtain ⟨-, hs⟩ := Stores.serve_cons.mp hs
  obtain ⟨hseed, hs⟩ := Stores.serve_cons.mp hs
  obtain ⟨s₁, hrun, hs⟩ := Stores.serve_append.mp hs
  cases (Stores.serve_of_ofRun hvalid.ofRun).mp hrun
  obtain ⟨-, hs⟩ := Stores.serve_cons.mp hs
  exact ⟨Except.ok.inj hseed, Stores.serve_nil.mp hs⟩

/-- An intent that is run counts its question, or ends the streak of its skill. -/
theorem counted_of_part {i : Intent} {r : IntentRun} {o : Engine.Outcome}
    (h : Part e c conversation total number i (some r) t (some (.ok o)))
    (hmode : e.limits.mode = .planExecute) (hs : s.Serve t s')
    (hstreaks : Streaks e conversation s marks)
    (hkeep : s.CanKeep (min e.limits.maxAsks (marks.length + 1))) :
    t = r.exchanges conversation total number o ∧ r.Counted e c conversation marks o s' := by
  cases h with
  | ran hi hvalid ho =>
    obtain ⟨hseed, rfl⟩ := serve_exchanges hvalid hs
    have hrun := hvalid.run ho
    have hasked : r.asked = o.asking := by rw [IntentRun.asked, ho]; rfl
    obtain ⟨hstreak, hle⟩ := hstreaks r.skill.name
    rw [← hstreak, ← hseed] at hle
    have hcount : o.asking = true → o.asks = r.asks + 1 ∧ r.asks < e.limits.maxAsks :=
      Engine.asks_of_execute hmode hrun
    have hfits : s.CanKeep (if o.asking then o.asks else 0) := by
      refine hkeep.mono ?_
      split
      next hasking =>
        obtain ⟨hasks, hlt⟩ := hcount hasking
        have hlength := streakOf_le_length r.skill.name marks
        rw [← hstreak, ← hseed] at hlength
        omega
      next => exact Nat.zero_le _
    have hself : (s.setStreak conversation r.skill.name
        (if o.asking then o.asks else 0)).streak conversation r.skill.name =
          if o.asking then o.asks else 0 := Stores.streak_setStreak_self hfits
    refine ⟨rfl, hvalid, ho, hseed.trans hstreak, fun skill => ?_, fun hmax hreach => ?_⟩
    · rw [IntentRun.mark, streakOf_run, hasked]
      by_cases hskill : r.skill.name = skill
      · subst hskill
        rw [hself, if_pos rfl, ← hstreak, ← hseed]
        split
        next hasking =>
          obtain ⟨hasks, hlt⟩ := hcount hasking
          exact ⟨hasks, hlt⟩
        next => exact ⟨rfl, Nat.zero_le _⟩
      · rw [Stores.streak_setStreak_of_ne (fun h => hskill h.2.symm), if_neg hskill]
        exact hstreaks skill
    · obtain ⟨hreply, hasking⟩ :=
        Engine.apology_of_execute hmode hrun (Nat.le_of_eq hmax.symm) hreach
      refine ⟨hreply, hasking, ?_⟩
      rw [hself, hasking]
      rfl

theorem asked_add (tally : Tally) (task : String) (o : Engine.Outcome) :
    (tally.add task o).asked = (tally.asked || o.asking) := by
  unfold Tally.add
  dsimp only
  split
  · rfl
  · split <;> rfl

section
variable {intents : List Intent} {tally : Tally} {runs : List IntentRun}

/-- In the end it is known whether any run asked. -/
theorem asked_of_loop {ended : Tally × Nat}
    (h : Loop e c conversation total number intents tally runs t (some (.ok ended))) :
    ended.1.asked = (tally.asked || runs.any IntentRun.asked) := by
  generalize hended : some (Except.ok ended) = out at h
  induction h with
  | unsaved | failed | cut => cases hended
  | finished | saved =>
    cases hended
    exact (Bool.or_false _).symm
  | @ran number i rest tally r o runs t t' out _ hpart _ ih =>
    cases hpart with
    | ran hi hvalid ho =>
      have hasked : r.asked = o.asking := by rw [IntentRun.asked, ho]; rfl
      rw [ih hended, asked_add, List.any_cons, hasked, Bool.or_assoc]

theorem length_of_loop {out : Option (Except TurnError (Tally × Nat))}
    (h : Loop e c conversation total number intents tally runs t out) (hout : out ≠ none) :
    runs.length ≤ t.length := by
  induction h with
  | unsaved | cut => exact absurd rfl hout
  | finished | saved | failed => exact Nat.zero_le _
  | ran _ hpart _ ih =>
    have hle := ih hout
    cases hpart
    rw [List.length_append, List.length_cons, List.length_cons]
    omega

/-- The intents of a turn are run one after the other, and then some may be put off. -/
theorem runsCounted_of_loop {ended : Tally × Nat}
    (h : Loop e c conversation total number intents tally runs t (some (.ok ended)))
    (hmode : e.limits.mode = .planExecute) (hs : s.Serve t s')
    (hstreaks : Streaks e conversation s marks)
    (hkeep : s.CanKeep (min e.limits.maxAsks (marks.length + t.length))) :
    ∃ t₁ t₂ s₁, t = t₁ ++ t₂ ∧ RunsCounted e c conversation total number marks s runs t₁ s₁ ∧
      s₁.Serve t₂ s' ∧ Streaks e conversation s' (marks ++ runs.map IntentRun.mark) := by
  generalize hended : some (Except.ok ended) = out at h
  induction h generalizing marks s with
  | unsaved | failed | cut => cases hended
  | finished =>
    refine ⟨[], [], s, rfl, .nil .., hs, ?_⟩
    cases Stores.serve_nil.mp hs
    rwa [List.map_nil, List.append_nil]
  | saved number i rest hstopped =>
    refine ⟨[], _, s, rfl, .nil .., hs, ?_⟩
    rw [List.map_nil, List.append_nil]
    exact hstreaks.of_serve hs (List.forall_mem_singleton.mpr trivial)
  | @ran number i rest tally r o runs t t' ended hgoing hpart hrest ih =>
    obtain ⟨s₁, hs₁, hs₂⟩ := Stores.serve_append.mp hs
    have hlength : (t ++ t').length = t.length + t'.length := List.length_append
    have hmarks : (marks ++ [r.mark]).length = marks.length + 1 := List.length_append
    have hpos : 1 ≤ t.length := by cases hpart; exact Nat.succ_pos _
    obtain ⟨rfl, hcounted⟩ := counted_of_part hpart hmode hs₁ hstreaks (hkeep.mono (by omega))
    have hkeep₁ : s₁.CanKeep (min e.limits.maxAsks ((marks ++ [r.mark]).length + t'.length)) :=
      (Stores.canKeep_of_serve hs₁).mpr (hkeep.mono (by omega))
    obtain ⟨t₁, t₂, s₂, rfl, hruns, hs₂, hstreaks⟩ := ih hs₂ hcounted.streaks hkeep₁ hended
    refine ⟨_, t₂, s₂, (List.append_assoc ..).symm, .cons hs₁ hcounted hruns, hs₂, ?_⟩
    rwa [List.append_assoc] at hstreaks

end

/-- A turn in which no run asked ends all streaks. -/
theorem Streaks.of_clearing {asked : Bool} (h : Streaks e conversation s marks)
    (hs : s.Serve (clearing conversation asked) s') :
    Streaks e conversation s' (marks ++ [.turn asked]) := by
  intro skill
  rw [streakOf_turn]
  cases asked with
  | true =>
    cases Stores.serve_nil.mp hs
    exact h skill
  | false =>
    cases Stores.serve_nil.mp (Stores.serve_cons.mp hs).2
    exact ⟨Stores.streak_clearStreaks s, Nat.zero_le _⟩

end Batch

theorem Request.OfFinding.keepsStreaks {r : Request} (h : r.OfFinding) : r.KeepsStreaks := by
  cases r <;> trivial

namespace Agent
open Batch (IntentRun Mark)

variable {a : Agent} {conversation message : String} {t : Trace} {s s' : Stores}

theorem Found.keepsStreaks (h : Found conversation message t) : ∀ x ∈ t, x.1.KeepsStreaks := by
  induction h with
  | remembered => exact List.forall_mem_singleton.mpr trivial
  | cons hx _ ih => exact List.forall_mem_cons.mpr ⟨hx.keepsStreaks, ih⟩

/-- What a turn does with the streaks: its runs count for them, and they stay within the limit. -/
structure Turn.Counted (a : Agent) (conversation : String) (past : List Mark) (turn : Turn)
    (runs : List IntentRun) : Prop where
  counted : ∃ total lead ran tail s s', turn.trace = lead ++ (ran ++ tail) ∧
    turn.before.Serve lead s ∧
    Batch.RunsCounted a.engine a.catalog conversation total 1 past s runs ran s' ∧
    s'.Serve tail turn.after ∧
    turn.trace.events.filter Event.isSkillStart = runs.mapIdx fun n r => r.opening total (1 + n)
  streaks : Batch.Streaks a.engine conversation turn.after (past ++ Batch.marksOf runs)

/-- The streaks of a conversation are counted from one turn to the next. -/
inductive Counts (a : Agent) (conversation : String) : List Mark → List Turn → Prop where
  | nil (past : List Mark) : Counts a conversation past []
  | cons {past : List Mark} {turn : Turn} {runs : List IntentRun} {rest : List Turn} :
    turn.Counted a conversation past runs →
    Counts a conversation (past ++ Batch.marksOf runs) rest →
    Counts a conversation past (turn :: rest)

/-- Turns of a conversation that complete without an error. Each finds the streaks that the one
before it left, and the stores do not fail. -/
inductive Completions (a : Agent) (conversation : String) : Stores → List Turn → Prop where
  | nil (s : Stores) : Completions a conversation s []
  | cons {s : Stores} {turn : Turn} {rest : List Turn} :
    (∀ skill, turn.before.streak conversation skill = s.streak conversation skill) →
    a.Handles conversation turn.message turn.trace (.ok ()) →
    turn.before.Serve turn.trace turn.after →
    Completions a conversation turn.after rest → Completions a conversation s (turn :: rest)

def exchangesOf (turns : List Turn) : Nat := (turns.flatMap (·.trace)).length

variable {intents : List Intent} {runs : List IntentRun} {reply : Option String}
  {past : List Mark}

theorem length_of_completed (h : a.Completed conversation message intents runs reply t) :
    (Batch.marksOf runs).length ≤ t.length := by
  cases h with
  | intro kept heard hfound hloop hfinished =>
    have hle := Batch.length_of_loop hloop (Option.some_ne_none _)
    simp only [Batch.marksOf, List.length_append, List.length_map, List.length_cons,
      List.length_nil]
    omega

theorem streaks_of_tail {ended : Batch.Tally × Nat} {finished : Trace}
    {kept : Except TurnError Unit} {heard : Bool}
    (hfinished : Batch.Finished ended.1 finished reply)
    (hs : s.Serve (Batch.clearing conversation ended.1.asked ++ (finished ++
      (answering conversation kept reply ++ [⟨.emit .done, heard⟩]))) s')
    (hstreaks : Batch.Streaks a.engine conversation s past) :
    Batch.Streaks a.engine conversation s' (past ++ [.turn ended.1.asked]) := by
  obtain ⟨s₁, hs₁, hs⟩ := Stores.serve_append.mp hs
  refine (hstreaks.of_clearing hs₁).of_serve hs ?_
  refine List.forall_mem_append.mpr ⟨?_, List.forall_mem_append.mpr ⟨?_, ?_⟩⟩
  · cases hfinished <;> simp [Request.KeepsStreaks, Exchange.taken]
  · cases reply <;> simp [answering, Request.KeepsStreaks]
  · exact List.forall_mem_singleton.mpr trivial

/-- A turn that completes has counted its runs. -/
theorem counted_of_completed {turn : Turn}
    (h : a.Completed conversation turn.message intents runs reply turn.trace)
    (hmode : a.engine.limits.mode = .planExecute) (hs : turn.before.Serve turn.trace turn.after)
    (hstreaks : Batch.Streaks a.engine conversation turn.before past)
    (hkeep : turn.before.CanKeep
      (min a.engine.limits.maxAsks (past.length + turn.trace.length))) :
    turn.Counted a conversation past runs := by
  have hstarts := starts_of_completed h
  generalize htrace : turn.trace = trace at h hs hkeep hstarts
  cases h with
  | @intro ended found ran finished kept heard hfound hloop hfinished =>
    obtain ⟨hstart, hs⟩ := Stores.serve_cons.mp hs
    obtain ⟨s₁, hs₁, hs⟩ := Stores.serve_append.mp hs
    obtain ⟨s₂, hs₂, hs⟩ := Stores.serve_append.mp hs
    obtain ⟨s₃, hs₃, hs₄⟩ := Stores.serve_append.mp hs
    have hlead : turn.before.Serve (.taken (.planning startNotice) ::
        (found ++ Batch.opening intents.length)) s₂ :=
      .cons hstart (Stores.serve_append.mpr ⟨s₁, hs₁, hs₂⟩)
    have hstreaks : Batch.Streaks a.engine conversation s₂ past :=
      Batch.Streaks.of_serve (hstreaks.of_serve hs₁ hfound.keepsStreaks) hs₂
        (Batch.forall_mem_opening (fun _ => trivial) _)
    have hkeep : s₂.CanKeep (min a.engine.limits.maxAsks (past.length + ran.length)) := by
      refine ((Stores.canKeep_of_serve hlead).mpr hkeep).mono ?_
      simp only [List.length_cons, List.length_append]
      omega
    obtain ⟨t₁, t₂, s', rfl, hruns, hend, hstreaks⟩ :=
      Batch.runsCounted_of_loop hloop hmode hs₃ hstreaks hkeep
    have hstreaks := streaks_of_tail hfinished hs₄ hstreaks
    have hasked := Batch.asked_of_loop hloop
    rw [Bool.false_or] at hasked
    rw [hasked, List.append_assoc] at hstreaks
    have htail := Stores.serve_append.mpr ⟨s₃, hend, hs₄⟩
    refine ⟨⟨intents.length, _, t₁, _, s₂, s', ?_, hlead, hruns, htail, ?_⟩, hstreaks⟩
    · rw [htrace]
      simp only [List.cons_append, List.append_assoc]
    · rw [htrace]
      exact hstarts

/-- Turns that complete count their runs on from what happened before them. -/
theorem counts_of_completions {turns : List Turn} (h : Completions a conversation s turns)
    (hmode : a.engine.limits.mode = .planExecute)
    (hstreaks : Batch.Streaks a.engine conversation s past)
    (hkeep : ∀ turn ∈ turns, turn.before.CanKeep
      (min a.engine.limits.maxAsks (past.length + exchangesOf turns))) :
    Counts a conversation past turns := by
  induction h generalizing past with
  | nil => exact .nil past
  | @cons s turn rest hbefore hhandles hs _ ih =>
    obtain ⟨hturn, hrest⟩ := List.forall_mem_cons.mp hkeep
    have hexchanges : exchangesOf (turn :: rest) = turn.trace.length + exchangesOf rest :=
      List.length_append
    obtain ⟨intents, runs, reply, hcompleted⟩ := completed_of_handles hhandles
    have hlength := length_of_completed hcompleted
    have hstreaks : Batch.Streaks a.engine conversation turn.before past := fun skill =>
      ⟨(hbefore skill).trans (hstreaks skill).1, (hstreaks skill).2⟩
    have hcounted := counted_of_completed hcompleted hmode hs hstreaks
      (hturn.mono (by rw [hexchanges]; omega))
    have hmarks : (past ++ Batch.marksOf runs).length = past.length + (Batch.marksOf runs).length :=
      List.length_append
    refine .cons hcounted (ih hcounted.streaks fun turn hm => (hrest turn hm).mono ?_)
    rw [hexchanges, hmarks]
    omega

/-- Over turns that complete, from a time when no skill had asked: after each turn the stores hold,
for each skill, how many of its runs asked since the last that did not or the last turn in which
none did. This never exceeds the limit, and a run that begins at the limit does not ask. -/
theorem asks_counted {turns : List Turn} (h : Completions a conversation s turns)
    (hmode : a.engine.limits.mode = .planExecute)
    (hstart : ∀ skill, s.streak conversation skill = 0)
    (hkeep : ∀ turn ∈ turns, turn.before.CanKeep
      (min a.engine.limits.maxAsks (exchangesOf turns))) :
    Counts a conversation [] turns := by
  refine counts_of_completions h hmode (fun skill => ⟨hstart skill, Nat.zero_le _⟩) ?_
  rwa [List.length_nil, Nat.zero_add]

theorem asks_counted_sample : ∃ turns, Completions sampleAgent "c" (.inLists 9) turns ∧
    turns ≠ [] ∧ sampleAgent.engine.limits.mode = .planExecute ∧
    (∀ skill, (Stores.inLists 9).streak "c" skill = 0) ∧
    (∀ turn ∈ turns, turn.before.CanKeep
      (min sampleAgent.engine.limits.maxAsks (exchangesOf turns))) ∧
    Counts sampleAgent "c" [] turns := by
  obtain ⟨t, t', hrun, hclose, -, -, s, hs, -⟩ := turn_sample
  have hturns : Completions sampleAgent "c" (.inLists 9) [⟨"m", t ++ t', .inLists 9, s⟩] :=
    .cons (fun _ => rfl) (.carriedOut hrun hclose) hs (.nil s)
  have hkeep : ∀ turn ∈ [(⟨"m", t ++ t', .inLists 9, s⟩ : Turn)], turn.before.CanKeep
      (min sampleAgent.engine.limits.maxAsks (exchangesOf [⟨"m", t ++ t', .inLists 9, s⟩])) :=
    List.forall_mem_singleton.mpr trivial
  exact ⟨_, hturns, List.cons_ne_nil _ _, rfl, fun _ => rfl, hkeep,
    asks_counted hturns rfl (fun _ => rfl) hkeep⟩

end Agent
end Switchboard
