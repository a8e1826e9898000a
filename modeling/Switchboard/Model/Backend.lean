import Switchboard.Model.Chat
import Switchboard.Settings.Basic

/-! Which model to use: the settings choose, as far as there are keys. -/
namespace Switchboard.Model

inductive Backend where
  /-- A model that only echoes. -/
  | echo
  | http (access : Access)
deriving DecidableEq, Repr

/-- The variables of the environment. -/
abbrev Environment := Dict String

def deepseekBase : String := "https://api.deepseek.com"

def defaultModel : String := "gpt-4o-mini"

/-- DeepSeek is used if there is a key of its own, or if it is the provider and there is a key for the
common interface; with that key any other provider is reached at the configured address. -/
def Backend.choose (s : Settings.Model) (env : Environment) : Backend :=
  match env.get? "DEEPSEEK_API_KEY", env.get? "OPENAI_API_KEY" with
  | some key, _ => .http (deepseek key)
  | none, some key =>
    if Text.lower s.provider = "deepseek" then .http (deepseek key)
    else .http ⟨s.baseUrl.getD defaultBase, s.openaiModel.getD defaultModel, key⟩
  | none, none => .echo
where
  deepseek (key : String) : Access := ⟨deepseekBase, s.deepseekModel.getD s.model, key⟩

/-- Texts are embedded only with a key; an empty one and the placeholder are none. -/
def embedder? (base : Option String) (model : String) (key : Option String) (env : Environment) :
    Option Access := do
  let key ← key.or (env.get? "OPENAI_API_KEY")
  if key.isEmpty || key = placeholderKey then none
  else some ⟨base.getD defaultBase, model, key⟩

end Switchboard.Model
