import Switchboard.Text.Blank
import Switchboard.Text.Cut

/-! Plans in what a model writes: one step a line, and the step that asks the user. -/
namespace Switchboard.Plan

/-- The word that starts a step which asks the user. -/
def askWord : String := "追问用户"

def defaultQuestion : String := "为了继续处理您的请求，请补充更多必要信息。"

/-- The marks that may stand after the number of a step. -/
def isNumberMark (c : Char) : Bool :=
  c = '.' || c = '、' || c = ')' || c = ':' || c = '：' || c = '）'

def isBullet (c : Char) : Bool := c = '-' || c = '*' || c = '•'

/-- What follows a number with its mark, with or without the word for "step" before it. -/
def afterNumber? (s : List Char) : Option (List Char) :=
  let s := match Chars.after? "步骤".toList s with
    | some r => Chars.trimStart r
    | none => s
  if (s.head?.map isDecimalDigit).getD false then
    match Chars.trimStart (s.dropWhile isDecimalDigit) with
    | c :: r => if isNumberMark c then some r else none
    | [] => none
  else none

/-- What follows a bullet and a blank. -/
def afterBullet? : List Char → Option (List Char)
  | b :: c :: r => if isBullet b && isBlank c then some r else none
  | _ => none

/-- The step without its number or bullet. -/
def withoutMarker (s : List Char) : List Char :=
  Chars.trim <| match afterNumber? s with
    | some r => r
    | none => (afterBullet? s).getD s

/-- Headings and the fences of code blocks are no steps. -/
def isComment (s : List Char) : Bool :=
  s.head? = some '#' || (Chars.after? (List.replicate 3 '\x60') s).isSome

/-- The step on a line, if there is one. -/
def stepOfLine? (line : List Char) : Option (List Char) :=
  let l := Chars.trim line
  if l.isEmpty || isComment l then none
  else
    let step := withoutMarker l
    if step.isEmpty then none else some step

def stepLines (text : List Char) : List (List Char) := (Chars.lines text).filterMap stepOfLine?

def asksUser (step : String) : Bool :=
  (Chars.after? askWord.toList (Chars.trimStart step.toList)).isSome

/-- A plan that asks the user does nothing else: its first such step alone is kept. -/
def keepQuestion (steps : List String) : List String :=
  match steps.find? asksUser with
  | some q => if steps.length > 1 then [q] else steps
  | none => steps

def parse (text : String) : List String :=
  keepQuestion ((stepLines text.toList).map String.ofList)

/-- The question of a step that asks the user: what follows a colon, or a standing text. -/
def question? (step : String) : Option String :=
  match Chars.after? askWord.toList (Chars.trimStart step.toList) with
  | none => none
  | some rest =>
    let question := match Chars.trimStart rest with
      | c :: r => if c = '：' || c = ':' then Chars.trim r else []
      | [] => []
    some (if question.isEmpty then defaultQuestion else .ofList question)

end Switchboard.Plan
