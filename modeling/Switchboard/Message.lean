/-! Messages of a conversation. -/
namespace Switchboard

inductive Role where
  | user
  | assistant
  | system
deriving DecidableEq, Repr

namespace Role

def name : Role → String
  | .user => "user"
  | .assistant => "assistant"
  | .system => "system"

/-- Any other word is the system's. -/
def ofName (s : String) : Role :=
  if s = "user" then .user else if s = "assistant" then .assistant else .system

end Role

structure Message where
  role : Role
  content : String
deriving DecidableEq, Repr

end Switchboard
