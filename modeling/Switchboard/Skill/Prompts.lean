import Switchboard.Dict
import Switchboard.Skill.Catalog
import Switchboard.Skill.Document

/-! The prompts of skills, read when first needed and then kept. -/
namespace Switchboard.Catalog

/-- The prompts read so far, by skill name. -/
abbrev Prompts := Dict String

/-- Reads a prompt; `readFile` gives the text of a readable file. -/
def loadPrompt (readFile : String → Option String) (s : Skill) : Except TurnError String :=
  match s.prompt with
  | .text p => .ok p
  | .file path =>
    match readFile path with
    | some text => .ok (Skill.Document.promptOf text)
    | none => .error (.config s!"load prompt of {s.name}: read {path}")

/-- The prompt of a skill, and the prompts kept afterwards. A failure is not kept. -/
def prompt (c : Catalog) (readFile : String → Option String) (name : String) (kept : Prompts) :
    Except TurnError String × Prompts :=
  match kept.get? name with
  | some p => (.ok p, kept)
  | none =>
    match c.get? name with
    | none => (.error (.skillNotFound name), kept)
    | some s =>
      match loadPrompt readFile s with
      | .ok p => (.ok p, kept.put name p)
      | .error e => (.error e, kept)

theorem toOption_eq_some {answer : Except TurnError String} {p : String} :
    answer.toOption = some p ↔ answer = .ok p := by
  cases answer <;> simp [Except.toOption]

section

variable (c : Catalog) (readFile : String → Option String) (name : String) (kept : Prompts)

/-- A prompt that is kept is the answer; any other is read as if none were kept. -/
theorem prompt_fst : (c.prompt readFile name kept).1 =
    match kept.get? name with
    | some p => .ok p
    | none => (c.prompt readFile name []).1 := by
  have hnil : Dict.get? ([] : Prompts) name = none := rfl
  rw [prompt, prompt, hnil]
  cases kept.get? name with
  | some p => rfl
  | none =>
    cases c.get? name with
    | none => rfl
    | some s =>
      dsimp only
      cases loadPrompt readFile s <;> rfl

/-- What was answered is kept, a failure is not. -/
theorem get?_prompt_self :
    (c.prompt readFile name kept).2.get? name = (c.prompt readFile name kept).1.toOption := by
  rw [prompt]
  cases hkept : kept.get? name with
  | some p => exact hkept
  | none =>
    cases c.get? name with
    | none => exact hkept
    | some s =>
      dsimp only
      cases loadPrompt readFile s with
      | error err => exact hkept
      | ok p => exact Dict.get?_put_self name p kept

theorem get?_prompt_of_ne {other : String} (h : other ≠ name) :
    (c.prompt readFile name kept).2.get? other = kept.get? other := by
  rw [prompt]
  cases kept.get? name with
  | some p => rfl
  | none =>
    cases c.get? name with
    | none => rfl
    | some s =>
      dsimp only
      cases loadPrompt readFile s with
      | error err => rfl
      | ok p => exact Dict.get?_put_of_ne h p kept

end

end Switchboard.Catalog
