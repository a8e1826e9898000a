import Switchboard.Engine.Step
import Switchboard.Plan.Progress
import Switchboard.Plan.Prompt
import Switchboard.Plan.Verdict

/-! The stages of a run and the way from each to the next. -/
namespace Switchboard

/-- How runs are carried out; `patience` bounds the replies that one step waits for. -/
structure Engine where
  limits : Plan.Limits
  patience : Nat

namespace Engine
open Plan (Progress Verdict)

/-- The stages of a run. -/
inductive State where
  | preload
  | planning
  | executing
  | observing
  | replanning (reason : String)
  | askingUser
  | finalizing
  | done
deriving DecidableEq, Repr

/-- The outcome of a stage: the next one or an error, and the progress made either way. -/
abbrev Stage := Dialogue (Except TurnError State × Progress)

def planningNotice : String := "正在分析问题并生成执行计划..."

def finalizingNotice : String := "正在生成最终回复..."

/-- The reply when no more questions may be asked. -/
def apology : String :=
  "抱歉，经过多次确认仍缺少完成该请求所需的信息，暂时无法继续处理。请补充完整信息后重新提问。"

def fallbackVerdict : String := "OK: 观察异常，继续执行"

/-- Emits an event and goes on to a stage; a listener that is gone cancels the run. -/
def announce (event : Event) (next : State) (p : Progress) : Stage := do
  if ← Dialogue.emit event then return (.ok next, p) else return (.error .cancelled, p)

/-- Emits an event before a stage's work. -/
def announced (event : Event) (p : Progress) (work : Stage) : Stage := do
  if ← Dialogue.emit event then work else return (.error .cancelled, p)

/-- Loads the skill's prompt and binds its tools; without any, or if they cannot be listed, the run
has no tools. -/
def preload (skill : Skill) (p : Progress) : Dialogue (Except TurnError Unit × Progress) := do
  match ← (Request.prompt skill.name).send with
  | .error e => return (.error e, p)
  | .ok prompt =>
    let p := { p with skillPrompt := prompt }
    if skill.tools.isEmpty then return (.ok (), p)
    match ← Request.allTools.send with
    | .error _ => return (.ok (), { p with tools := [] })
    | .ok live => return (.ok (), { p with tools := Handle.resolve skill.tools live })

/-- The steps the model plans next. -/
def plan (task : String) (p : Progress) : Dialogue (Except ModelError (List String)) := do
  match ← Dialogue.ask (Plan.Prompt.planner p.tools task p.executed) with
  | .error e => return .error e
  | .ok text => return .ok (Plan.parse text)

/-- The text of a step's result. -/
def resultText : Except ModelError StepOutput → String
  | .ok out => if out.text.isEmpty then "(无结果)" else out.text
  | .error e => s!"执行失败: {e.message}"

/-- The calls that a step's result counts. -/
def countedCalls : Except ModelError StepOutput → Nat
  | .ok out => out.toolCalls
  | .error _ => 0

def executing (e : Engine) (task : String) (p : Progress) : Stage :=
  match p.currentStep? with
  | none => pure (.ok .finalizing, p)
  | some current =>
    if Plan.asksUser current then pure (.ok .askingUser, p)
    else
      let (number, total) := p.position
      announced (.actionStart number total current) p do
        let out ← step e.patience p.tools e.limits.maxToolRounds
          (Plan.Prompt.stepSystem p.skillPrompt p.tools)
          (Plan.Prompt.step current task p.completed)
        let result := resultText out
        announce (.actionDone number total current result) .observing
          ({ p with toolCalls := p.toolCalls + countedCalls out }.record current result)

/-- The verdict on the last executed step; a model that fails or says nothing lets the run go on. -/
def observe (e : Engine) (task : String) (p : Progress) : Dialogue Verdict :=
  match p.completed.getLast? with
  | none => pure (Verdict.parse fallbackVerdict)
  | some last => do
    match ← Dialogue.ask (Plan.Prompt.observer task last.step last.result p.remaining
        e.limits.previewChars) with
    | .ok text => return Verdict.parse (if Text.isBlankText text then fallbackVerdict else text)
    | .error _ => return Verdict.parse fallbackVerdict

def observing (e : Engine) (task : String) (p : Progress) : Stage := do
  let verdict ← observe e task p
  let event := Event.observe p.position.1 verdict.text
  if verdict.wantsReplan ∧ p.replans < e.limits.maxReplans then
    announce event (.replanning verdict.text) p
  else
    if ← Dialogue.emit event then return (.ok .executing, p.advance)
    else return (.error .cancelled, p)

/-- Installs a plan and announces it. -/
def install (planned : Except ModelError (List String)) (p : Progress)
    (start : List String → Progress → Progress) (event : List String → Event) : Stage :=
  match planned with
  | .error err => pure (.error (.model err), p)
  | .ok steps => announce (event steps) .executing (start steps p)

/-- The question of the current step, or an apology once the questions are used up. -/
def askingUser (e : Engine) (p : Progress) : Stage :=
  if e.limits.maxAsks ≤ p.asks then
    announce (.result apology) .done { p with asking := false, reply := some apology }
  else
    let question := (p.currentStep?.bind Plan.question?).getD Plan.defaultQuestion
    announce (.result question) .done
      { p with asks := p.asks + 1, asking := true, reply := some question }

def finalizing (task : String) (p : Progress) : Stage := do
  match ← Dialogue.ask (Plan.Prompt.final p.skillPrompt task p.superseded p.completed) with
  | .error err => return (.error (.model err), p)
  | .ok text =>
    let answer := Text.trim text
    announce (.result answer) .done { p with reply := some answer }

/-- One stage of a run. -/
def transition (e : Engine) (skill : Skill) (task : String) : State → Progress → Stage
  | .preload, p => do
    match ← preload skill p with
    | (.ok (), p) => return (.ok .planning, p)
    | (.error err, p) => return (.error err, p)
  | .planning, p => announced (.planning planningNotice) p do
    install (← plan task p) p .startPlan .plan
  | .executing, p => executing e task p
  | .observing, p => observing e task p
  | .replanning reason, p => do install (← plan task p) p .replan (.replan reason)
  | .askingUser, p => askingUser e p
  | .finalizing, p => announced (.planning finalizingNotice) p (finalizing task p)
  | .done, p => pure (.ok .done, p)

end Engine
end Switchboard
