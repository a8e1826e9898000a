import Switchboard.Proofs.IntentRuns
import Switchboard.Turn.Basic

/-! The parts of a turn: what it gathers, the runs of its intents, and what comes after them. -/
namespace Switchboard

/-- Requests that only look something up. -/
def Request.OfSearch : Request → Prop
  | .readMemory _ | .embed _ => True
  | _ => False

theorem Request.OfSearch.quiet {r : Request} (h : r.OfSearch) : r.Quiet := by
  cases r <;> trivial

theorem Request.OfSearch.keeps {r : Request} (h : r.OfSearch) : r.KeepsPending := by
  cases r <;> trivial

/-- Requests of which the listener hears nothing and that put nothing off. -/
def Request.OfGathering : Request → Prop
  | .emit _ | .replacePending .. | .stall => False
  | _ => True

theorem Request.OfSearch.ofGathering {r : Request} (h : r.OfSearch) : r.OfGathering := by
  cases r <;> trivial

theorem Request.OfGathering.quiet {r : Request} (h : r.OfGathering) : r.Quiet := by
  cases r <;> trivial

def Request.OfConclusion : Request → Prop
  | .emit _ | .complete _ | .clearAskStreaks _ => True
  | _ => False

theorem Request.OfConclusion.keeps {r : Request} (h : r.OfConclusion) : r.KeepsPending := by
  cases r <;> trivial

namespace Exchange

def pending? : Exchange → Option (List Intent)
  | ⟨.getPending _, .ok intents⟩ => some intents
  | _ => none

end Exchange

namespace Trace

def routed (c : Catalog) (message : String) (t : Trace) : List Intent :=
  match t.completions.head? with
  | some (_, reply) => Route.intentsOf c message reply
  | none => []

def pending (t : Trace) : List Intent := (t.findSome? Exchange.pending?).getD []

end Trace

namespace Batch

/-- What a turn tells of its results once all intents are run. -/
inductive Summary : List Event → Prop where
  | silent : Summary []
  | told (reply : String) : Summary [.result reply]
  | begun : Summary [.planning summaryNotice]
  | written (reply : String) : Summary [.planning summaryNotice, .result reply]

def opening (total : Nat) : Trace :=
  if 1 < total then [.taken (.planning (countNotice total))] else []

theorem forall_mem_opening {P : Exchange → Prop} (h : ∀ event, P (.taken event)) (total : Nat) :
    ∀ x ∈ opening total, P x := by
  unfold opening
  split
  · exact List.forall_mem_singleton.mpr (h _)
  · exact List.forall_mem_nil _

variable {e : Engine} {c : Catalog} {conversation : String} {t : Trace}

def report (ended : Tally × Nat) : Work Outcome := do
  let reply ← finish ended.1
  return ⟨reply, ended.1.stopped, ended.2, ended.1.failed⟩

/-- What follows the intents of a turn. -/
def conclude (conversation : String) (ended : Tally × Nat) : Work Outcome := do
  unless ended.1.asked do attempt (Request.clearAskStreaks conversation).send
  report ended

theorem execute_eq (intents : List Intent) :
    execute e c conversation intents =
      (if 1 < intents.length then tell (.planning (countNotice intents.length)) else pure ()) >>=
        fun _ => runIntents e c conversation intents.length 1 intents {} >>=
          conclude conversation := by
  unfold execute
  dsimp only
  split
  · rfl
  · rfl

/-- How far the intents of a turn come with what is told before and after them. -/
inductive Executed (e : Engine) (c : Catalog) (conversation : String) (intents : List Intent) :
    List IntentRun → Trace → Option (Except TurnError Outcome) → Prop where
  | unopened : Executed e c conversation intents [] [] none
  | cut {runs : List IntentRun} {t : Trace} :
    Loop e c conversation intents.length 1 intents {} runs t none →
    Executed e c conversation intents runs (opening intents.length ++ t) none
  | failed {runs : List IntentRun} {t : Trace} {err : TurnError} :
    Loop e c conversation intents.length 1 intents {} runs t (some (.error err)) →
    Executed e c conversation intents runs (opening intents.length ++ t) (some (.error err))
  | concluded {runs : List IntentRun} {t t' : Trace} {ended : Tally × Nat}
    {left : Dialogue (Except TurnError Outcome)} :
    Loop e c conversation intents.length 1 intents {} runs t (some (.ok ended)) →
    (conclude conversation ended).run.After t' left →
    Executed e c conversation intents runs (opening intents.length ++ (t ++ t')) left.value?

private theorem executed_of_opened {intents : List Intent}
    {left : Dialogue (Except TurnError Outcome)}
    (h : (runIntents e c conversation intents.length 1 intents {} >>=
      conclude conversation).run.After t left) (ht : t.Undisturbed c) :
    ∃ runs, Executed e c conversation intents runs (opening intents.length ++ t) left.value? := by
  rcases after_work h with ⟨d, hd, hgoing, hleft⟩ | ⟨err, hd, rfl⟩ | ⟨t₁, ended, t₂, rfl, hd, hend⟩
  · obtain ⟨runs, hloop⟩ := loop_of_after hd ht
    rw [Program.value?_of_not_isDone hgoing] at hloop
    rw [Program.value?_of_not_isDone hleft]
    exact ⟨runs, .cut hloop⟩
  · obtain ⟨runs, hloop⟩ := loop_of_after hd ht
    exact ⟨runs, .failed hloop⟩
  · obtain ⟨runs, hloop⟩ := loop_of_after hd (Trace.undisturbed_append.mp ht).1
    exact ⟨runs, .concluded hloop hend⟩

/-- The intents of a turn, run in order and summarized, come as far as this. -/
theorem executed_of_after {intents : List Intent} {left : Dialogue (Except TurnError Outcome)}
    (h : (execute e c conversation intents).run.After t left) (ht : t.Undisturbed c) :
    ∃ runs, Executed e c conversation intents runs t left.value? := by
  rw [execute_eq] at h
  split at h
  next hmany =>
    rcases after_tell h ht.attended with ⟨rfl, hleft⟩ | ⟨t, rfl, hrest, -⟩
    · rw [Program.value?_of_not_isDone hleft]
      exact ⟨[], .unopened⟩
    · have hopening : opening intents.length = [.taken (.planning (countNotice intents.length))] :=
        if_pos hmany
      have hexecuted := executed_of_opened hrest ht.tail
      rw [hopening] at hexecuted
      exact hexecuted
  next hfew =>
    have hopening : opening intents.length = [] := if_neg hfew
    have hexecuted := executed_of_opened h ht
    rw [hopening] at hexecuted
    exact hexecuted

theorem finish_only (tally : Tally) : (finish tally).run.Only Request.OfConclusion := by
  unfold finish
  split
  · trivial
  · refine ⟨trivial, fun taken => ?_⟩
    cases taken <;> trivial
  · trivial
  · trivial
  · refine ⟨trivial, fun taken => ?_⟩
    cases taken with
    | false => trivial
    | true =>
      refine ⟨trivial, fun reply => ⟨trivial, fun taken => ?_⟩⟩
      cases taken <;> trivial

theorem report_only (ended : Tally × Nat) : (report ended).run.Only Request.OfConclusion := by
  refine (finish_only ended.1).bind fun reply _ => ?_
  cases reply <;> trivial

theorem conclude_only (ended : Tally × Nat) :
    (conclude conversation ended).run.Only Request.OfConclusion := by
  unfold conclude
  split
  · exact report_only ended
  · refine ⟨trivial, fun cleared => ?_⟩
    cases cleared with
    | error err => trivial
    | ok u => exact report_only ended

theorem summary_of_finish {tally : Tally} {left : Dialogue (Except TurnError (Option String))}
    (h : (finish tally).run.After t left) (ha : t.Attended) :
    Summary t.events ∧ ∀ err, left.value? ≠ some (.error err) := by
  unfold finish at h
  split at h
  · obtain ⟨rfl, rfl⟩ := Program.after_done.mp h
    exact ⟨.silent, nofun⟩
  · rcases after_tell h ha with ⟨rfl, hleft⟩ | ⟨t, rfl, hend, -⟩
    · exact ⟨.silent, by rw [Program.value?_of_not_isDone hleft]; nofun⟩
    · obtain ⟨rfl, rfl⟩ := Program.after_done.mp hend
      exact ⟨.told _, nofun⟩
  · obtain ⟨rfl, rfl⟩ := Program.after_done.mp h
    exact ⟨.silent, nofun⟩
  · obtain ⟨rfl, rfl⟩ := Program.after_done.mp h
    exact ⟨.silent, nofun⟩
  · rcases after_tell h ha with ⟨rfl, hleft⟩ | ⟨t, rfl, hask, ha⟩
    · exact ⟨.silent, by rw [Program.value?_of_not_isDone hleft]; nofun⟩
    rcases Program.after_ask.mp hask with ⟨rfl, rfl⟩ | ⟨reply, t, rfl, htell⟩
    · exact ⟨.begun, nofun⟩
    rcases after_tell htell (Trace.attended_cons.mp ha).2 with ⟨rfl, hleft⟩ | ⟨t, rfl, hend, -⟩
    · exact ⟨.begun, by rw [Program.value?_of_not_isDone hleft]; nofun⟩
    · obtain ⟨rfl, rfl⟩ := Program.after_done.mp hend
      exact ⟨.written _, nofun⟩

theorem summary_of_report {ended : Tally × Nat} {left : Dialogue (Except TurnError Outcome)}
    (h : (report ended).run.After t left) (ha : t.Attended) :
    Summary t.events ∧ ∀ err, left.value? ≠ some (.error err) := by
  rcases after_work h with ⟨d, hd, -, hleft⟩ | ⟨err, hd, -⟩ | ⟨t₁, reply, t₂, rfl, hd, hend⟩
  · rw [Program.value?_of_not_isDone hleft]
    exact ⟨(summary_of_finish hd ha).1, nofun⟩
  · exact absurd rfl ((summary_of_finish hd ha).2 err)
  · obtain ⟨rfl, rfl⟩ := Program.after_done.mp hend
    rw [List.append_nil] at ha ⊢
    exact ⟨(summary_of_finish hd ha).1, nofun⟩

/-- After the intents the turn tells its summary, and does not fail. -/
theorem summary_of_conclude {ended : Tally × Nat} {left : Dialogue (Except TurnError Outcome)}
    (h : (conclude conversation ended).run.After t left) (ht : t.Undisturbed c) :
    Summary t.events ∧ ∀ err, left.value? ≠ some (.error err) := by
  unfold conclude at h
  split at h
  · exact summary_of_report h ht.attended
  · rcases Program.after_ask.mp h with ⟨rfl, rfl⟩ | ⟨cleared, t, rfl, hreport⟩
    · exact ⟨.silent, nofun⟩
    · cases (ht.head : cleared = .ok ())
      change (report ended).run.After t left at hreport
      have hsummary := summary_of_report hreport ht.tail.attended
      exact hsummary

end Batch

namespace Agent

/-- The intents of a turn: those of the message, and then those put off before. -/
def intentsOf (a : Agent) (message : String) (t : Trace) : List Intent :=
  Intent.merge (t.routed a.catalog message) t.pending

def gather (a : Agent) (conversation message : String) :
    Dialogue (Except TurnError (List Intent)) := do
  let messages := match ← (Request.readMemory conversation).send with
    | .ok ms => ms
    | .error _ => []
  let candidates ← a.index.candidates a.hasEmbedder a.catalog message
  let routed ← Route.route a.catalog a.window message messages candidates
  if ← Dialogue.isClosed then return .error .cancelled
  let pending ← popPending conversation
  remember conversation ⟨.user, message⟩
  return .ok (Intent.merge routed pending)

def keep (conversation : String) :
    Except TurnError Batch.Outcome → Dialogue (Except TurnError Unit)
  | .error err => pure (.error err)
  | .ok outcome => do
    if let some reply := outcome.reply then remember conversation ⟨.assistant, reply⟩
    return .ok ()

def carryOut (a : Agent) (conversation : String) :
    Except TurnError (List Intent) → Dialogue (Except TurnError Unit)
  | .error err => pure (.error err)
  | .ok intents =>
    (Batch.execute a.engine a.catalog conversation intents).run >>= keep conversation

theorem runTurn_eq (a : Agent) (conversation message : String) :
    a.runTurn conversation message = Dialogue.emit (.planning startNotice) >>= fun taken =>
      if taken then a.gather conversation message >>= a.carryOut conversation
      else pure (.error .cancelled) := by
  unfold runTurn
  refine congrArg _ (funext fun taken => ?_)
  cases taken with
  | false => rfl
  | true =>
    rw [if_neg (by decide), if_pos rfl]
    unfold gather
    simp only [bind_assoc]
    refine congrArg _ (funext fun memory => congrArg _ (funext fun candidates =>
      congrArg _ (funext fun routed => congrArg _ (funext fun closed => ?_))))
    cases closed with
    | true => rfl
    | false =>
      rw [if_neg (by decide), if_neg (by decide)]
      simp only [bind_assoc, pure_bind]
      rfl

def popped (conversation : String) : List Intent → Trace
  | [] => [⟨.getPending conversation, .ok []⟩]
  | i :: rest =>
    [⟨.getPending conversation, .ok (i :: rest)⟩, ⟨.clearPending conversation, .ok ()⟩]

def findings (conversation message : String) (messages : List Message)
    (reply : Except ModelError String) (pending : List Intent) : Trace :=
  ⟨.complete messages, reply⟩ :: .present :: (popped conversation pending ++
    [⟨.appendMemory conversation ⟨.user, message⟩, .ok ()⟩])

/-- The exchanges that bring a turn its intents. -/
inductive Gathered (a : Agent) (conversation message : String) : Trace → List Intent → Prop where
  | intro {t : Trace} (messages : List Message) (reply : Except ModelError String)
    (pending : List Intent) : (∀ x ∈ t, x.1.OfSearch) →
    Gathered a conversation message
      (t ++ findings conversation message messages reply pending)
      (Intent.merge (Route.intentsOf a.catalog message reply) pending)

variable {a : Agent} {conversation message : String} {t : Trace}

theorem candidates_only (hasEmbedder : Bool) (c : Catalog) (message : String)
    (index : Skill.Index) : (index.candidates hasEmbedder c message).Only Request.OfSearch := by
  unfold Skill.Index.candidates Skill.Index.candidatesBy
  split
  · trivial
  · split
    · trivial
    · refine ⟨trivial, fun answer => ?_⟩
      dsimp only [Program.bind]
      split <;> trivial

theorem popPending_only : (popPending conversation).Only Request.OfGathering := by
  refine ⟨trivial, fun answer => ?_⟩
  cases answer with
  | error err => trivial
  | ok intents =>
    dsimp only [Program.bind]
    split
    · trivial
    · refine ⟨trivial, fun cleared => ?_⟩
      cases cleared <;> trivial

theorem gather_only : (a.gather conversation message).Only Request.OfGathering := by
  refine ⟨trivial, fun memory => ?_⟩
  have hsearch := candidates_only a.hasEmbedder a.catalog message a.index
  refine (hsearch.mono fun _ => Request.OfSearch.ofGathering).bind
    fun candidates _ => ⟨trivial, fun reply => ⟨trivial, fun closed => ?_⟩⟩
  cases closed with
  | true => trivial
  | false => exact popPending_only.bind fun pending _ => ⟨trivial, fun _ => trivial⟩

theorem popped_of_run {c : Catalog} {pending : List Intent}
    (h : (popPending conversation).Run t pending) (ht : t.Undisturbed c) :
    t = popped conversation pending := by
  obtain ⟨answer, t, rfl, hget⟩ := Program.run_ask.mp h
  obtain ⟨intents, rfl⟩ := ht.head
  cases intents with
  | nil =>
    obtain ⟨rfl, rfl⟩ := Program.run_done.mp hget
    rfl
  | cons i rest =>
    obtain ⟨cleared, t, rfl, hclear⟩ := Program.run_ask.mp hget
    cases (ht.tail.head : cleared = .ok ())
    obtain ⟨rfl, rfl⟩ := Program.run_done.mp hclear
    rfl

/-- A turn that nothing disturbs comes to its intents. -/
theorem gathered_of_run {c : Catalog} {r : Except TurnError (List Intent)}
    (h : (a.gather conversation message).Run t r) (ht : t.Undisturbed c) :
    ∃ intents, r = .ok intents ∧ a.Gathered conversation message t intents := by
  obtain ⟨memory, t, rfl, hrest⟩ := Program.run_ask.mp h
  change (a.index.candidates a.hasEmbedder a.catalog message >>= _).Run t r at hrest
  obtain ⟨t₁, candidates, t₂, rfl, hcandidates, hroute⟩ := Program.run_bind.mp hrest
  obtain ⟨reply, t₂, rfl, hreplied⟩ := Program.run_ask.mp hroute
  have ht₂ := (Trace.undisturbed_append.mp ht.tail).2.tail
  obtain ⟨t₂, rfl, hopen, -⟩ := Dialogue.run_isClosed hreplied ht₂.attended
  obtain ⟨t₃, pending, t₄, rfl, hpop, hremember⟩ := Program.run_bind.mp hopen
  obtain ⟨ht₃, ht₄⟩ := Trace.undisturbed_append.mp ht₂.tail
  obtain ⟨kept, t₅, rfl, hend⟩ := Program.run_ask.mp hremember
  cases (ht₄.head : kept = .ok ())
  obtain ⟨rfl, rfl⟩ := Program.run_done.mp hend
  cases popped_of_run hpop ht₃
  refine ⟨_, rfl, ?_⟩
  have hsearch : ∀ x ∈ (⟨.readMemory conversation, memory⟩ : Exchange) :: t₁, x.1.OfSearch :=
    List.forall_mem_cons.mpr ⟨trivial, (candidates_only ..).of_mem hcandidates⟩
  exact .intro _ reply pending hsearch

theorem Gathered.events {intents : List Intent} (h : a.Gathered conversation message t intents) :
    t.events = [] := by
  cases h with
  | intro messages reply pending hsearch =>
    rw [Trace.events_append, Trace.events_of_quiet fun x hx => (hsearch x hx).quiet]
    cases pending <;> rfl

section
variable {messages : List Message} {reply : Except ModelError String} {pending : List Intent}

theorem routed_of_findings (hsearch : ∀ x ∈ t, x.1.OfSearch) (event : Event) (rest : Trace) :
    Trace.routed a.catalog message (.taken event ::
      (t ++ findings conversation message messages reply pending ++ rest)) =
      Route.intentsOf a.catalog message reply := by
  have hnone : t.completions = [] := by
    refine List.filterMap_eq_nil_iff.mpr fun ⟨r, x⟩ hx => ?_
    have hr := hsearch _ hx
    cases r <;> first | rfl | exact absurd hr id
  rw [List.append_assoc, Trace.routed, Trace.completions_taken, Trace.completions_append, hnone]
  rfl

theorem pending_of_findings (hsearch : ∀ x ∈ t, x.1.OfSearch) (event : Event) (rest : Trace) :
    Trace.pending (.taken event ::
      (t ++ findings conversation message messages reply pending ++ rest)) = pending := by
  have hnone : t.findSome? Exchange.pending? = none := by
    refine List.findSome?_eq_none_iff.mpr fun ⟨r, x⟩ hx => ?_
    have hr := hsearch _ hx
    cases r <;> first | rfl | exact absurd hr id
  change ((t ++ _ ++ rest).findSome? Exchange.pending?).getD [] = pending
  rw [List.append_assoc, List.findSome?_append, hnone]
  cases pending <;> rfl

end

/-- The exchanges of a turn tell which intents it gathered, however it goes on. -/
theorem Gathered.intentsOf_eq {intents : List Intent}
    (h : a.Gathered conversation message t intents) (event : Event) (rest : Trace) :
    a.intentsOf message (.taken event :: (t ++ rest)) = intents := by
  cases h with
  | intro messages reply pending hsearch =>
    rw [intentsOf, routed_of_findings hsearch, pending_of_findings hsearch]

/-- How far a turn comes: with its intents and their runs, if it gets to them. -/
inductive Carried (a : Agent) (conversation message : String) :
    List Intent → List Batch.IntentRun → Trace → Option (Except TurnError Unit) → Prop where
  | unheard : Carried a conversation message [] [] [] none
  | gathering {t : Trace} : (∀ x ∈ t, x.1.OfGathering) →
    Carried a conversation message [] [] (.taken (.planning startNotice) :: t) none
  | cut {intents : List Intent} {runs : List Batch.IntentRun} {t t' : Trace} :
    Gathered a conversation message t intents →
    Batch.Executed a.engine a.catalog conversation intents runs t' none →
    Carried a conversation message intents runs
      (.taken (.planning startNotice) :: (t ++ t')) none
  | executed {intents : List Intent} {runs : List Batch.IntentRun} {t t' t'' : Trace}
    {r : Except TurnError Batch.Outcome} {left : Dialogue (Except TurnError Unit)} :
    Gathered a conversation message t intents →
    Batch.Executed a.engine a.catalog conversation intents runs t' (some r) →
    (keep conversation r).After t'' left →
    Carried a conversation message intents runs
      (.taken (.planning startNotice) :: (t ++ (t' ++ t''))) left.value?

theorem carried_of_after {left : Dialogue (Except TurnError Unit)}
    (h : (a.runTurn conversation message).After t left) (ht : t.Undisturbed a.catalog) :
    ∃ intents runs, a.Carried conversation message intents runs t left.value? := by
  rw [runTurn_eq] at h
  rcases Dialogue.after_emit h ht.attended with ⟨rfl, hleft⟩ | ⟨t, rfl, hrest, -⟩
  · rw [Program.value?_of_not_isDone hleft]
    exact ⟨[], [], .unheard⟩
  have ht := ht.tail
  change (a.gather conversation message >>= a.carryOut conversation).After t left at hrest
  rcases Program.after_bind.mp hrest with ⟨d, hd, hgoing, rfl⟩ | ⟨t₁, r, t₂, rfl, hgather, hcarry⟩
  · rw [Program.value?_of_not_isDone (Program.not_isDone_bind hgoing)]
    exact ⟨[], [], .gathering (gather_only.of_mem hd)⟩
  obtain ⟨ht₁, ht₂⟩ := Trace.undisturbed_append.mp ht
  obtain ⟨intents, rfl, hgathered⟩ := gathered_of_run hgather ht₁
  change ((Batch.execute a.engine a.catalog conversation intents).run >>= keep conversation).After
    t₂ left at hcarry
  rcases Program.after_bind.mp hcarry with ⟨d, hd, hgoing, rfl⟩ | ⟨t₃, r, t₄, rfl, hexecute, hkeep⟩
  · obtain ⟨runs, hexecuted⟩ := Batch.executed_of_after hd ht₂
    rw [Program.value?_of_not_isDone hgoing] at hexecuted
    rw [Program.value?_of_not_isDone (Program.not_isDone_bind hgoing)]
    exact ⟨intents, runs, .cut hgathered hexecuted⟩
  · obtain ⟨runs, hexecuted⟩ :=
      Batch.executed_of_after hexecute (Trace.undisturbed_append.mp ht₂).1
    exact ⟨intents, runs, .executed hgathered hexecuted hkeep⟩

theorem keep_only (r : Except TurnError Batch.Outcome) :
    (keep conversation r).Only fun q => q.Quiet ∧ q.KeepsPending := by
  unfold keep
  split
  · trivial
  · split
    · exact ⟨⟨trivial, trivial⟩, fun _ => trivial⟩
    · trivial

/-- What is kept of the intents does not change how they ended. -/
theorem value?_of_keep {r : Except TurnError Batch.Outcome} {result : Except TurnError Unit}
    {left : Dialogue (Except TurnError Unit)} (h : (keep conversation r).After t left)
    (hleft : left.value? = some result) : result = r.map fun _ => () := by
  cases Program.eq_done_of_value? hleft
  unfold keep at h
  split at h
  · exact (Program.run_done.mp h).2
  · split at h
    · obtain ⟨kept, t, rfl, hend⟩ := Program.run_ask.mp h
      exact (Program.run_done.mp hend).2
    · exact (Program.run_done.mp h).2

theorem popPending_run (conversation : String) (pending : List Intent) :
    (popPending conversation).Run (popped conversation pending) pending := by
  cases pending with
  | nil => exact Program.run_ask.mpr ⟨.ok [], [], rfl, Program.run_done.mpr ⟨rfl, rfl⟩⟩
  | cons i rest =>
    exact Program.run_ask.mpr ⟨.ok (i :: rest), _, rfl,
      Program.run_ask.mpr ⟨.ok (), [], rfl, Program.run_done.mpr ⟨rfl, rfl⟩⟩⟩

theorem gather_run (hembedder : a.hasEmbedder = false) (conversation message : String)
    (reply : Except ModelError String) (pending : List Intent) :
    ∃ messages, (a.gather conversation message).Run
      (⟨.readMemory conversation, .ok []⟩ ::
        findings conversation message messages reply pending)
      (.ok (Intent.merge (Route.intentsOf a.catalog message reply) pending)) := by
  have hcandidates : a.index.candidates a.hasEmbedder a.catalog message =
      .done a.catalog.skills := by
    unfold Skill.Index.candidates Skill.Index.candidatesBy
    rw [hembedder, if_pos (by simp)]
    rfl
  unfold gather
  rw [hcandidates]
  refine ⟨_, Program.run_ask.mpr ⟨.ok [], _, rfl, Program.run_ask.mpr
    ⟨reply, _, rfl, Program.run_ask.mpr ⟨false, _, rfl, ?_⟩⟩⟩⟩
  change (popPending conversation >>= _).Run _ _
  exact (popPending_run conversation pending).bind
    (Program.run_ask.mpr ⟨.ok (), [], rfl, Program.run_done.mpr ⟨rfl, rfl⟩⟩)

theorem runTurn_run {t' : Trace} {r : Except TurnError (List Intent)}
    {result : Except TurnError Unit} (hgather : (a.gather conversation message).Run t r)
    (hcarry : (a.carryOut conversation r).Run t' result) :
    (a.runTurn conversation message).Run
      (Exchange.taken (.planning startNotice) :: (t ++ t')) result := by
  have hrest : (a.gather conversation message >>= a.carryOut conversation).Run (t ++ t') result :=
    hgather.bind hcarry
  rw [runTurn_eq]
  exact Program.run_ask.mpr ⟨true, _, rfl, hrest⟩

end Agent
end Switchboard
