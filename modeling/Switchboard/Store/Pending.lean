import Switchboard.Dict
import Switchboard.Route.Intent

/-! The intents put off in each conversation, and how often in a row each skill has asked there. -/
namespace Switchboard.Store

/-- No conversation is kept with no intents, with no streaks or with a streak of zero. -/
structure Pending where
  intents : Dict (List Intent) := []
  streaks : Dict (Dict Nat) := []
deriving Repr

namespace Pending

def get (p : Pending) (conversation : String) : List Intent :=
  (p.intents.get? conversation).getD []

def clear (conversation : String) (p : Pending) : Pending :=
  { p with intents := p.intents.erase conversation }

def replace (conversation : String) (intents : List Intent) (p : Pending) : Pending :=
  if intents.isEmpty then p.clear conversation
  else { p with intents := p.intents.put conversation intents }

def streak (p : Pending) (conversation skill : String) : Nat :=
  (((p.streaks.get? conversation).getD []).get? skill).getD 0

def setStreak (conversation skill : String) (count : Nat) (p : Pending) : Pending :=
  match p.streaks.get? conversation with
  | none =>
    if count = 0 then p
    else { p with streaks := p.streaks.put conversation [(skill, count)] }
  | some skills =>
    let skills := if count = 0 then skills.erase skill else skills.put skill count
    if skills.isEmpty then { p with streaks := p.streaks.erase conversation }
    else { p with streaks := p.streaks.put conversation skills }

def clearStreaks (conversation : String) (p : Pending) : Pending :=
  { p with streaks := p.streaks.erase conversation }

/-- The number of conversations with a streak. -/
def tracked (p : Pending) : Nat := p.streaks.length

end Pending
end Switchboard.Store
