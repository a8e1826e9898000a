import Switchboard.Store.Memory
import Switchboard.Store.Pending
import Switchboard.Store.Rows

/-! What is remembered between turns, in lists or in tables. -/
namespace Switchboard

inductive Stores where
  | lists (memory : Store.Memory) (pending : Store.Pending)
  | tables (rows : Store.Rows)
deriving Repr

namespace Stores

def inLists (maxMessages : Nat) : Stores := .lists (.ofMax maxMessages) {}

def inTables (maxMessages : Nat) : Stores := .tables (.ofMax maxMessages)

def appendMessage (conversation : String) (m : Message) : Stores → Stores
  | lists a b => lists (a.append conversation m) b
  | tables r => tables (r.appendMessage conversation m)

def readMessages (conversation : String) : Stores → List Message
  | lists a _ => a.read conversation
  | tables r => r.readMessages conversation

def getIntents (conversation : String) : Stores → List Intent
  | lists _ b => b.get conversation
  | tables r => r.getIntents conversation

def replaceIntents (conversation : String) (intents : List Intent) : Stores → Stores
  | lists a b => lists a (b.replace conversation intents)
  | tables r => tables (r.replaceIntents conversation intents)

def clearIntents (conversation : String) : Stores → Stores
  | lists a b => lists a (b.clear conversation)
  | tables r => tables (r.clearIntents conversation)

def streak (conversation skill : String) : Stores → Nat
  | lists _ b => b.streak conversation skill
  | tables r => r.streak conversation skill

def setStreak (conversation skill : String) (count : Nat) : Stores → Stores
  | lists a b => lists a (b.setStreak conversation skill count)
  | tables r => tables (r.setStreak conversation skill count)

def clearStreaks (conversation : String) : Stores → Stores
  | lists a b => lists a (b.clearStreaks conversation)
  | tables r => tables (r.clearStreaks conversation)

/-- The number of conversations with a streak. -/
def tracked : Stores → Nat
  | lists _ b => b.tracked
  | tables r => r.tracked

end Stores
end Switchboard
