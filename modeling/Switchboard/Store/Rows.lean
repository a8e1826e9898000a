import Switchboard.Decimal.Double
import Switchboard.Message
import Switchboard.Route.Intent

/-! The same records in the rows of tables: messages and pending intents numbered in the order in
which they were added, and one row for each streak. -/
namespace Switchboard.Store

/-- A row with its number; numbers are not used again. -/
structure Numbered (α : Type) where
  id : Nat
  conversation : String
  value : α
deriving Repr

/-- A message with its role in words. -/
structure MessageRow where
  role : String
  content : String
deriving Repr

def MessageRow.ofMessage (m : Message) : MessageRow := ⟨m.role.name, m.content⟩

def MessageRow.message (x : MessageRow) : Message := ⟨.ofName x.role, x.content⟩

@[simp] theorem MessageRow.message_ofMessage (m : Message) : (ofMessage m).message = m := by
  obtain ⟨role, content⟩ := m
  cases role <;> rfl

structure StreakRow where
  conversation : String
  skill : String
  count : Int
deriving Repr

/-- What the file of a store holds. -/
structure Tables where
  messages : List (Numbered MessageRow) := []
  lastMessage : Nat := 0
  intents : List (Numbered Intent) := []
  lastIntent : Nat := 0
  streaks : List StreakRow := []
deriving Repr

/-- A store on a file. -/
structure Rows extends Tables where
  maxMessages : Nat
deriving Repr

/-- A count in a signed column of 64 bits. -/
def signedColumn (n : Nat) : Int := (n : Int).bmod (twoTo 64)

namespace Rows

/-- At least one message is kept. -/
def openOn (n : Nat) (file : Tables) : Rows := { file with maxMessages := max n 1 }

/-- A store on a new file. -/
def ofMax (n : Nat) : Rows := openOn n {}

/-- The numbers of the newest rows of a conversation; a negative limit is none. -/
def newest (limit : Int) (conversation : String) (rows : List (Numbered α)) : List Nat :=
  let ids := ((rows.filter (·.conversation = conversation)).map (·.id)).mergeSort (· ≥ ·)
  if limit < 0 then ids else ids.take limit.toNat

/-- The values of a conversation in the order of their numbers. -/
def valuesOf (conversation : String) (rows : List (Numbered α)) : List α :=
  ((rows.filter (·.conversation = conversation)).mergeSort fun a b => a.id ≤ b.id).map (·.value)

def appendMessage (conversation : String) (m : Message) (r : Rows) : Rows :=
  let id := r.lastMessage + 1
  let rows := r.messages ++ [⟨id, conversation, .ofMessage m⟩]
  let kept := newest (signedColumn r.maxMessages) conversation rows
  { r with
    lastMessage := id
    messages := rows.filter fun x => x.conversation ≠ conversation || kept.contains x.id }

def readMessages (r : Rows) (conversation : String) : List Message :=
  (valuesOf conversation r.messages).map (·.message)

def getIntents (r : Rows) (conversation : String) : List Intent := valuesOf conversation r.intents

def clearIntents (conversation : String) (r : Rows) : Rows :=
  { r with intents := r.intents.filter (·.conversation ≠ conversation) }

def addIntent (conversation : String) (r : Rows) (i : Intent) : Rows :=
  { r with
    lastIntent := r.lastIntent + 1
    intents := r.intents ++ [⟨r.lastIntent + 1, conversation, i⟩] }

def replaceIntents (conversation : String) (intents : List Intent) (r : Rows) : Rows :=
  intents.foldl (addIntent conversation) (r.clearIntents conversation)

def streak (r : Rows) (conversation skill : String) : Nat :=
  match r.streaks.find? fun s => s.conversation = conversation && s.skill = skill with
  | some s => s.count.toNat
  | none => 0

/-- All rows but the one of a skill. -/
def dropStreak (conversation skill : String) (rows : List StreakRow) : List StreakRow :=
  rows.filter fun s => !(s.conversation = conversation && s.skill = skill)

def setStreak (conversation skill : String) (count : Nat) (r : Rows) : Rows :=
  let others := dropStreak conversation skill r.streaks
  { r with streaks :=
      if count = 0 then others else others ++ [⟨conversation, skill, signedColumn count⟩] }

def clearStreaks (conversation : String) (r : Rows) : Rows :=
  { r with streaks := r.streaks.filter (·.conversation ≠ conversation) }

/-- The number of conversations with a streak. -/
def tracked (r : Rows) : Nat := (r.streaks.map (·.conversation)).eraseDups.length

end Rows
end Switchboard.Store
