import Switchboard.Engine.Run

/-! The intents of a turn, one after the other, and one reply out of their results. -/
namespace Switchboard.Batch

/-- What became of a turn's intents. -/
structure Outcome where
  reply : Option String := none
  terminatedEarly : Bool := false
  saved : Nat := 0
  failed : Nat := 0
deriving DecidableEq, Repr

/-- The state between two intents: the results with their tasks, the question that ends the batch,
and whether any run asked. -/
structure Tally where
  results : List (String × String) := []
  question : Option String := none
  stopped : Bool := false
  asked : Bool := false
  failed : Nat := 0

def countNotice (total : Nat) : String := s!"💡 识别到 {total} 个任务，开始逐个处理..."

def summaryNotice : String := "📝 正在汇总所有任务结果..."

/-- Takes a run's outcome into the tally. A question asked before any tool was called stops the
batch; one asked later counts as a result. -/
def Tally.add (t : Tally) (task : String) (o : Engine.Outcome) : Tally :=
  let t := { t with asked := t.asked || o.asking }
  if o.asking && o.toolCalls = 0 then { t with stopped := true, question := o.reply }
  else match o.reply, o.failed with
    | some content, false => { t with results := t.results ++ [(task, content)] }
    | _, _ => { t with failed := t.failed + 1 }

/-- A batch that goes on unless a store fails, its listener is gone or there is no skill. -/
abbrev Work (α : Type) := ExceptT TurnError Dialogue α

/-- A dialogue whose error ends the batch. -/
def attempt (d : Dialogue (Except TurnError α)) : Work α := ExceptT.mk d

/-- Emits an event; a listener that is gone cancels the batch. -/
def tell (event : Event) : Work Unit := do
  if ← Dialogue.emit event then return else throw .cancelled

/-- Runs one intent and keeps account of the questions of its skill. -/
def runIntent (e : Engine) (c : Catalog) (conversation : String) (total number : Nat) (i : Intent) :
    Work Engine.Outcome := do
  let skill ← attempt (pure (c.resolve i.skill))
  tell (.skillStart number total skill.name i.task)
  let asks ← attempt (Request.askStreak conversation skill.name).send
  let outcome ← attempt (e.execute skill i.task asks)
  let streak := if outcome.asking then outcome.asks else 0
  attempt (Request.setAskStreak conversation skill.name streak).send
  return outcome

/-- Runs the intents in order. After one that stops the batch the others are saved for later. The
number tells how many were saved. -/
def runIntents (e : Engine) (c : Catalog) (conversation : String) (total : Nat) :
    (number : Nat) → List Intent → Tally → Work (Tally × Nat)
  | _, [], t => return (t, 0)
  | number, i :: rest, t => do
    if t.stopped then
      attempt (Request.replacePending conversation (i :: rest)).send
      return (t, rest.length + 1)
    let outcome ← runIntent e c conversation total number i
    runIntents e c conversation total (number + 1) rest (t.add i.task outcome)

/-- The results under their tasks. -/
def labelled (results : List (String × String)) : List String :=
  results.map fun r => s!"【{r.1}】\n{r.2}"

/-- The reply to the user: a question comes after all results; of several results the model writes a
summary, or they stand side by side if it cannot. -/
def finish (t : Tally) : Work (Option String) :=
  match t.question, t.results with
  | some question, [] => return some question
  | some question, results => do
    let reply := Text.joined "\n\n" (results.map (·.2) ++ [question])
    tell (.result reply)
    return some reply
  | none, [] => return none
  | none, [r] => return some r.2
  | none, results => do
    tell (.planning summaryNotice)
    let parts := labelled results
    let summary := match ← Dialogue.ask (Plan.Prompt.summary parts) with
      | .ok text => if Text.isBlankText text then Text.joined "\n\n" parts else Text.trim text
      | .error _ => Text.joined "\n\n" parts
    tell (.result summary)
    return some summary

def execute (e : Engine) (c : Catalog) (conversation : String) (intents : List Intent) :
    Work Outcome := do
  let total := intents.length
  if 1 < total then tell (.planning (countNotice total))
  let (t, saved) ← runIntents e c conversation total 1 intents {}
  unless t.asked do attempt (Request.clearAskStreaks conversation).send
  let reply ← finish t
  return ⟨reply, t.stopped, saved, t.failed⟩

end Switchboard.Batch
