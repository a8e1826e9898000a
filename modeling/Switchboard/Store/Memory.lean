import Switchboard.Dict
import Switchboard.Message

/-! The last messages of each conversation. -/
namespace Switchboard.Store

structure Memory where
  maxMessages : Nat
  conversations : Dict (List Message) := []
deriving Repr

namespace Memory

/-- At least one message is kept. -/
def ofMax (n : Nat) : Memory := { maxMessages := max n 1 }

def read (m : Memory) (conversation : String) : List Message :=
  (m.conversations.get? conversation).getD []

/-- The last `n` items. -/
def lastOf (n : Nat) (xs : List α) : List α := xs.drop (xs.length - n)

def append (conversation : String) (message : Message) (m : Memory) : Memory :=
  { m with conversations :=
      m.conversations.put conversation (lastOf m.maxMessages (m.read conversation ++ [message])) }

theorem read_append_self (m : Memory) (c : String) (msg : Message) :
    (m.append c msg).read c = lastOf m.maxMessages (m.read c ++ [msg]) := by
  simp [append, read, Dict.get?_put_self]

theorem read_append_of_ne {c c' : String} (h : c' ≠ c) (m : Memory) (msg : Message) :
    (m.append c msg).read c' = m.read c' := by
  simp [append, read, Dict.get?_put_of_ne h]

end Memory
end Switchboard.Store
