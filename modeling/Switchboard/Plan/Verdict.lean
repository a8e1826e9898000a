import Switchboard.Text.Cut

/-! What an observer says of a finished step. -/
namespace Switchboard.Plan

inductive Verdict where
  | fine (text : String)
  | replan (text : String)
deriving DecidableEq, Repr

namespace Verdict

def text : Verdict → String
  | .fine t => t
  | .replan t => t

def wantsReplan : Verdict → Bool
  | .fine _ => false
  | .replan _ => true

/-- A verdict that starts with `REPLAN`, in letters of either case, asks for a new plan. -/
def parse (text : String) : Verdict :=
  let t := Chars.trim text.toList
  if (t.take 6).map Char.toUpper = "REPLAN".toList then .replan (.ofList t) else .fine (.ofList t)

end Verdict
end Switchboard.Plan
