import Switchboard.Proofs.Cancellation
import Switchboard.Proofs.CompletedTurns

/-! How a batch of intents ends: with all of them run or put off, or with an error whose cause is
known. -/
namespace Switchboard

/-- The store of pending intents and of questions refuses a request with this error. -/
def Exchange.Refuses (err : TurnError) : Exchange → Prop
  | ⟨.askStreak .., answer⟩ => answer = .error err
  | ⟨.setAskStreak .., answer⟩ | ⟨.replacePending .., answer⟩
  | ⟨.clearAskStreaks _, answer⟩ => answer = .error err
  | _ => False

def Oracle.Prompts (w : Oracle) (c : Catalog) : Prop :=
  ∀ past skill answer, w past (.prompt skill) = some answer →
    Exchange.Prompted c ⟨.prompt skill, answer⟩

theorem Oracle.Prompts.of_gives {w : Oracle} {c : Catalog} {past t : Trace} (hw : w.Prompts c)
    (h : w.Gives past t) : t.Prompted c := by
  induction t generalizing past with
  | nil => exact Trace.prompted_nil c
  | cons x t ih =>
    obtain ⟨hx, ht⟩ := Oracle.gives_cons.mp h
    refine Trace.prompted_cons.mpr ⟨?_, ih ht⟩
    obtain ⟨r, answer⟩ := x
    cases r with
    | prompt skill => exact hw past skill answer hx
    | _ => trivial

namespace Batch

variable {e : Engine} {c : Catalog} {conversation : String} {total number : Nat} {α β : Type}
  {intents : List Intent} {i : Intent} {t : Trace} {err : TurnError} {tally : Tally}

/-- Why a batch has come to an error: the skill of an intent is not in the catalog, nor the one to
fall back on; or the last thing that happened was that the listener had left, or that the store
refused a request. -/
inductive Broken (c : Catalog) (intents : List Intent) : Trace → TurnError → Prop where
  | unresolved (t : Trace) {i : Intent} : i ∈ intents → c.get? i.skill = none →
    c.fallback? = none → Broken c intents t .noFallback
  | left (t : Trace) {x : Exchange} : ¬ x.Attended → Broken c intents (t ++ [x]) .cancelled
  | refused (t : Trace) {x : Exchange} {err : TurnError} : x.Refuses err →
    Broken c intents (t ++ [x]) err

theorem Broken.after (h : Broken c intents t err) (before : Trace) :
    Broken c intents (before ++ t) err := by
  cases h with
  | unresolved _ hi hnone hfallback => exact .unresolved _ hi hnone hfallback
  | left t hx =>
    rw [← List.append_assoc]
    exact .left _ hx
  | refused t hx =>
    rw [← List.append_assoc]
    exact .refused _ hx

/-- Work that comes to an error for no other cause. -/
def BreaksFor (c : Catalog) (intents : List Intent) (x : Work α) : Prop :=
  ∀ (t : Trace) (err : TurnError), x.run.Run t (.error err) → t.Prompted c →
    Broken c intents t err

theorem BreaksFor.bind {x : Work α} {f : α → Work β} (hx : BreaksFor c intents x)
    (hf : ∀ a, BreaksFor c intents (f a)) : BreaksFor c intents (x >>= f) := by
  intro t err h hc
  rcases after_work h with ⟨d, -, -, hleft⟩ | ⟨err', hfirst, heq⟩ | ⟨t₁, a, t₂, rfl, -, hrest⟩
  · exact absurd trivial hleft
  · cases heq
    exact hx t err hfirst hc
  · exact (hf a t₂ err hrest (Trace.prompted_append.mp hc).2).after t₁

theorem breaksFor_pure (a : α) : BreaksFor c intents (pure a : Work α) := by
  intro t err h
  cases (Program.run_done.mp h).2

theorem breaksFor_lift (d : Dialogue α) : BreaksFor c intents (liftM d : Work α) := by
  intro t err h
  obtain ⟨t, a, t', -, -, hend⟩ := Program.run_bind.mp h
  cases (Program.run_done.mp hend).2

theorem breaksFor_tell (event : Event) : BreaksFor c intents (tell event) := by
  intro t err h _
  obtain ⟨taken, t, rfl, hend⟩ := Program.run_ask.mp h
  cases taken with
  | true => cases (Program.run_done.mp hend).2
  | false =>
    obtain ⟨rfl, hcancelled⟩ := Program.run_done.mp hend
    cases hcancelled
    exact .left [] Bool.false_ne_true

private theorem breaksFor_store {r : Request} {f : r.Answer → Except TurnError α}
    (hf : ∀ answer err, f answer = .error err → Exchange.Refuses err ⟨r, answer⟩) :
    BreaksFor c intents (attempt (Program.ask r fun answer => .done (f answer))) := by
  intro t err h _
  obtain ⟨answer, t, rfl, hend⟩ := Program.run_ask.mp h
  obtain ⟨rfl, herr⟩ := Program.run_done.mp hend
  exact .refused [] (hf answer err herr.symm)

theorem breaksFor_askStreak (conversation skill : String) :
    BreaksFor c intents (attempt (Request.askStreak conversation skill).send) :=
  breaksFor_store (r := .askStreak conversation skill) fun _ _ h => h

theorem breaksFor_setAskStreak (conversation skill : String) (count : Nat) :
    BreaksFor c intents (attempt (Request.setAskStreak conversation skill count).send) :=
  breaksFor_store (r := .setAskStreak conversation skill count) fun _ _ h => h

theorem breaksFor_replacePending (conversation : String) (saved : List Intent) :
    BreaksFor c intents (attempt (Request.replacePending conversation saved).send) :=
  breaksFor_store (r := .replacePending conversation saved) fun _ _ h => h

theorem breaksFor_clearAskStreaks (conversation : String) :
    BreaksFor c intents (attempt (Request.clearAskStreaks conversation).send) :=
  breaksFor_store (r := .clearAskStreaks conversation) fun _ _ h => h

theorem breaksFor_resolve (hi : i ∈ intents) :
    BreaksFor c intents (attempt (pure (c.resolve i.skill))) := by
  intro t err h _
  obtain ⟨rfl, herr⟩ := Program.run_done.mp h
  unfold Catalog.resolve at herr
  split at herr
  next => cases herr
  next hnone =>
    cases herr
    obtain ⟨hskill, hfallback⟩ := Option.or_eq_none_iff.mp hnone
    exact .unresolved [] hi hskill hfallback

/-- A run comes to an error only where its listener has left. -/
theorem breaksFor_run (skill : Skill) (task : String) (asks : Nat) :
    BreaksFor c intents (attempt (e.execute skill task asks)) := by
  intro t err h hc
  have hrun : (e.execute skill task asks).Run t (.error err) := h
  have hleft : ¬ t.Attended := by
    intro ha
    obtain ⟨o, ho, -⟩ := Engine.ok_of_execute hrun ha hc
    cases ho
  obtain ⟨t', x, rfl, hx, hcancelled⟩ :=
    Dialogue.left_of_halts (Engine.execute_halts asks) hrun hleft
  cases hcancelled
  exact .left t' hx

theorem breaksFor_runIntent (number : Nat) (hi : i ∈ intents) :
    BreaksFor c intents (runIntent e c conversation total number i) :=
  (breaksFor_resolve hi).bind fun skill => (breaksFor_tell _).bind fun _ =>
    (breaksFor_askStreak conversation skill.name).bind fun asks =>
      (breaksFor_run skill i.task asks).bind fun outcome =>
        (breaksFor_setAskStreak conversation skill.name _).bind fun _ => breaksFor_pure outcome

theorem breaksFor_runIntents (number : Nat) {rest : List Intent} (hrest : rest ⊆ intents) :
    BreaksFor c intents (runIntents e c conversation total number rest tally) := by
  induction rest generalizing number tally with
  | nil => exact breaksFor_pure _
  | cons i rest ih =>
    obtain ⟨hi, hrest⟩ := List.cons_subset.mp hrest
    unfold runIntents
    split
    · exact (breaksFor_replacePending conversation _).bind fun _ => breaksFor_pure _
    · exact (breaksFor_runIntent number hi).bind fun outcome => ih _ hrest

theorem breaksFor_finish (tally : Tally) : BreaksFor c intents (finish tally) := by
  unfold finish
  split
  · exact breaksFor_pure _
  · exact (breaksFor_tell _).bind fun _ => breaksFor_pure _
  · exact breaksFor_pure _
  · exact breaksFor_pure _
  · exact (breaksFor_tell _).bind fun _ => (breaksFor_lift _).bind fun answer =>
      (breaksFor_tell _).bind fun _ => breaksFor_pure _

theorem breaksFor_conclude (ended : Tally × Nat) :
    BreaksFor c intents (conclude conversation ended) := by
  have hreport : BreaksFor c intents (report ended) :=
    (breaksFor_finish ended.1).bind fun _ => breaksFor_pure _
  unfold conclude
  split
  · exact hreport
  · exact (breaksFor_clearAskStreaks conversation).bind fun _ => hreport

/-- A batch comes to an error for no other cause. -/
theorem breaksFor_execute : BreaksFor c intents (execute e c conversation intents) := by
  rw [execute_eq]
  refine BreaksFor.bind ?_ fun _ =>
    (breaksFor_runIntents 1 (List.Subset.refl intents)).bind breaksFor_conclude
  split
  · exact breaksFor_tell _
  · exact breaksFor_pure _

/-- All intents have been run, or the store has taken them for a later turn: the first ones are run
in order, and the others put off together. -/
structure Handled (e : Engine) (c : Catalog) (conversation : String) (intents : List Intent)
    (t : Trace) (runs : List IntentRun) (rest : List Intent) : Prop where
  ran : Runs e c intents runs t
  whole : ∀ r ∈ runs, r.outcome ≠ none
  all : runs.map (·.intent) ++ rest = intents
  saved : rest = [] ∨ ⟨.replacePending conversation rest, .ok ()⟩ ∈ t

theorem all_of_loop {runs : List IntentRun} {ended : Tally × Nat}
    (h : Loop e c conversation total number intents tally runs t (some (.ok ended))) :
    ∃ rest, runs.map (·.intent) ++ rest = intents ∧
      (rest = [] ∨ ⟨.replacePending conversation rest, .ok ()⟩ ∈ t) := by
  generalize hended : some (Except.ok ended) = out at h
  induction h with
  | unsaved | failed | cut => cases hended
  | finished => exact ⟨[], rfl, .inl rfl⟩
  | saved number i rest => exact ⟨i :: rest, rfl, .inr List.mem_cons_self⟩
  | ran _ hpart _ ih =>
    obtain ⟨rest, hall, hsaved⟩ := ih hended
    cases hpart with
    | ran hi =>
      refine ⟨rest, ?_, hsaved.imp_right (List.mem_append_right _)⟩
      rw [List.map_cons, List.cons_append, hall, hi]

theorem handled_of_ok {outcome : Outcome}
    (h : (execute e c conversation intents).run.Run t (.ok outcome)) :
    ∃ runs rest, Handled e c conversation intents t runs rest := by
  obtain ⟨runs, t₁, ended, t₂, rfl, hloop, -⟩ := executed_of_ok h
  obtain ⟨rest, hall, hsaved⟩ := all_of_loop hloop
  have hruns : Runs e c intents runs _ := (runs_of_loop hloop).of_part
    ⟨opening intents.length, clearing conversation ended.1.asked ++ t₂, List.append_assoc ..⟩
  refine ⟨runs, rest, hruns, outcomes_of_loop hloop (Option.some_ne_none _), hall,
    hsaved.imp_right fun hm => ?_⟩
  exact List.mem_append_right _ (List.mem_append_left _ hm)

/-- In a world that answers, and in which no step is endless, a batch ends. Either all its intents
have been run or put off, or it has come to an error: because no skill can be found for an intent,
because the listener has left, or because the store has refused a request. -/
theorem batch_ends {w : Oracle} {past : Trace} (hw : w.Answers) (hprompts : w.Prompts c)
    (hsteps : ∀ (t : Trace) (next : Empty → Dialogue (Except TurnError Outcome)),
      (execute e c conversation intents).run.After t (Program.ask .stall next) →
      ¬ w.Gives past t) :
    ∃ (t : Trace) (r : Except TurnError Outcome),
      (execute e c conversation intents).run.Run t r ∧ w.Gives past t ∧
      match r with
      | .ok _ => ∃ runs rest, Handled e c conversation intents t runs rest
      | .error err => Broken c intents t err := by
  rcases hw.run_or_stall (execute e c conversation intents).run past with
    ⟨t, r, hrun, hg⟩ | ⟨t, next, hafter, hg⟩
  · refine ⟨t, r, hrun, hg, ?_⟩
    cases r with
    | ok outcome => exact handled_of_ok hrun
    | error err => exact breaksFor_execute t err hrun (hprompts.of_gives hg)
  · exact absurd hg (hsteps t next hafter)

/-- A world like `saying` in which the prompts are those of the catalog. -/
def serving (c : Catalog) (reply : String) : Oracle
  | _, .prompt skill => some (c.prompt (fun _ => none) skill []).1
  | past, r => Oracle.saying reply past r

theorem answers_serving (c : Catalog) (reply : String) : (serving c reply).Answers := by
  intro past r hr
  cases r <;> first | rfl | exact absurd rfl hr

theorem prompts_serving (c : Catalog) (reply : String) : (serving c reply).Prompts c :=
  fun _ _ _ h => ⟨fun _ => none, [], (Option.some.inj h).symm⟩

/-- An engine and a catalog for examples of batches. -/
def sampleEngine : Engine := ⟨{ mode := .direct }, 1⟩

@[inherit_doc sampleEngine]
def sampleCatalog : Catalog := ⟨[⟨"refund", "", [], .text "p"⟩, Engine.sampleSkill], "weather"⟩

def sampleRun (skill : Skill) (i : Intent) : IntentRun where
  intent := i
  skill := skill
  asks := 0
  trace := [⟨.prompt skill.name, .ok "p"⟩, ⟨.complete [⟨.system, Plan.Prompt.stepSystem "p" []⟩,
    ⟨.user, Plan.Prompt.direct i.task⟩], .ok "好"⟩, .present, .taken (.result "好")]
  outcome := some { reply := some "好" }

theorem sampleRun_run {skill : Skill} (htools : skill.tools = []) (i : Intent) :
    (sampleEngine.execute skill i.task 0).Run (sampleRun skill i).trace
      (.ok { reply := some "好" }) := by
  exact Engine.runDirect_run htools (rfl : ToolCall.parse? "好" = none) _ 0 i.task "p"

theorem sample_run : ∃ (t : Trace) (outcome : Outcome),
    (execute sampleEngine sampleCatalog "c" [⟨"weather", "a"⟩, ⟨"refund", "b"⟩]).run.Run t
      (.ok outcome) ∧ (serving sampleCatalog "好").Gives [] t := by
  have hfirst : (runIntent sampleEngine sampleCatalog "c" 2 1 ⟨"weather", "a"⟩).run.Run _ _ :=
    runIntent_run (r := sampleRun Engine.sampleSkill ⟨"weather", "a"⟩) rfl (sampleRun_run rfl _)
  have hsecond : (runIntent sampleEngine sampleCatalog "c" 2 2 ⟨"refund", "b"⟩).run.Run _ _ :=
    runIntent_run (r := sampleRun ⟨"refund", "", [], .text "p"⟩ ⟨"refund", "b"⟩) rfl
      (sampleRun_run rfl _)
  have hloop : (runIntents sampleEngine sampleCatalog "c" 2 1
      [⟨"weather", "a"⟩, ⟨"refund", "b"⟩] {}).run.Run _ _ :=
    run_work hfirst (run_work hsecond (Program.run_done.mpr ⟨rfl, rfl⟩))
  have hfinish : (finish { results := [("a", "好"), ("b", "好")] }).run.Run _ (.ok (some "好")) :=
    run_work (tell_run _) (Program.run_ask.mpr ⟨.ok "好", _, rfl,
      run_work (tell_run _) (Program.run_done.mpr ⟨rfl, rfl⟩)⟩)
  have hconclude : (conclude "c" ({ results := [("a", "好"), ("b", "好")] }, 0)).run.Run _ _ :=
    Program.run_ask.mpr ⟨.ok (), _, rfl,
      run_work hfinish (Program.run_done.mpr ⟨rfl, rfl⟩)⟩
  refine ⟨_, _, run_work (tell_run _) (run_work hloop hconclude), ?_⟩
  exact ⟨rfl, rfl, rfl, rfl, rfl, rfl, rfl, rfl, rfl, rfl, rfl, rfl, rfl, rfl, rfl, rfl, rfl,
        rfl, rfl, trivial⟩

theorem batch_ends_sample : (serving sampleCatalog "好").Answers ∧
    (serving sampleCatalog "好").Prompts sampleCatalog ∧
    (∀ (t : Trace) (next : Empty → Dialogue (Except TurnError Outcome)),
      (execute sampleEngine sampleCatalog "c" [⟨"weather", "a"⟩, ⟨"refund", "b"⟩]).run.After t
        (Program.ask .stall next) → ¬ (serving sampleCatalog "好").Gives [] t) ∧
    ∃ (t : Trace) (r : Except TurnError Outcome),
      (execute sampleEngine sampleCatalog "c" [⟨"weather", "a"⟩, ⟨"refund", "b"⟩]).run.Run t r ∧
      (serving sampleCatalog "好").Gives [] t ∧
      match r with
      | .ok _ => ∃ runs rest, Handled sampleEngine sampleCatalog "c"
          [⟨"weather", "a"⟩, ⟨"refund", "b"⟩] t runs rest
      | .error err => Broken sampleCatalog [⟨"weather", "a"⟩, ⟨"refund", "b"⟩] t err := by
  have hw := answers_serving sampleCatalog "好"
  have hprompts := prompts_serving sampleCatalog "好"
  have hsteps : ∀ (t : Trace) (next : Empty → Dialogue (Except TurnError Outcome)),
      (execute sampleEngine sampleCatalog "c" [⟨"weather", "a"⟩, ⟨"refund", "b"⟩]).run.After t
        (Program.ask .stall next) → ¬ (serving sampleCatalog "好").Gives [] t := by
    intro t next hafter hgives
    obtain ⟨t', outcome, hrun, hg⟩ := sample_run
    obtain ⟨_, hstalled⟩ := hg.run_of_after hrun hgives hafter
    obtain ⟨x, -⟩ := Program.run_ask.mp hstalled
    exact x.elim
  exact ⟨hw, hprompts, hsteps, batch_ends hw hprompts hsteps⟩

/-- The store refuses to count a question that was not even asked: the answer of the first intent is
told, but it comes to no reply, and the second intent is neither run nor put off. -/
theorem batch_breaks : ∃ (t : Trace) (err : TurnError),
    (execute sampleEngine sampleCatalog "c" [⟨"weather", "a"⟩, ⟨"refund", "b"⟩]).run.Run t
      (.error err) ∧ t.Attended ∧ err ≠ .cancelled ∧ err ≠ .noFallback ∧
    t.events.countP Event.isSkillStart = 1 ∧
    ∀ x ∈ t, ∀ saved, x.1 ≠ .replacePending "c" saved := by
  have hset : (attempt (Request.setAskStreak "c" "weather" 0).send).run.Run _ _ :=
    Program.run_ask.mpr ⟨.error (.store "set_ask_streak failed"), [], rfl,
      Program.run_done.mpr ⟨rfl, rfl⟩⟩
  have hintent : (runIntent sampleEngine sampleCatalog "c" 2 1 ⟨"weather", "a"⟩).run.Run _ _ :=
    run_work (Program.run_done.mpr ⟨rfl, rfl⟩) (run_work (tell_run _) (Program.run_ask.mpr
      ⟨.ok 0, _, rfl, run_work (sampleRun_run rfl ⟨"weather", "a"⟩) (run_work_error hset)⟩))
  have hloop : (runIntents sampleEngine sampleCatalog "c" 2 1
      [⟨"weather", "a"⟩, ⟨"refund", "b"⟩] {}).run.Run _ _ := run_work_error hintent
  refine ⟨_, _, run_work (tell_run _) (run_work_error hloop), ?_, nofun, nofun, rfl, ?_⟩
  · simp [Trace.Attended, Exchange.Attended, Exchange.taken, Exchange.present, sampleRun]
  · simp [Exchange.taken, Exchange.present, sampleRun]

end Batch
end Switchboard
