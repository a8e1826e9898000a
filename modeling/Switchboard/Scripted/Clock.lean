/-! Time that passes only while something waits, and answers that are prepared in a row. -/
namespace Switchboard.Scripted

/-- Why a computation goes no further: it waits for ever, or its time is up. -/
inductive Halt where
  | hang
  | interrupted
deriving DecidableEq, Repr

/-- Seconds so far, and when the computation is to be interrupted, if at all. -/
structure Clock where
  now : Nat := 0
  deadline : Option Nat := none
deriving Repr

namespace Clock

/-- Lets time pass. A wait that would end at the deadline or later is interrupted there. -/
def sleep (seconds : Nat) (c : Clock) : Except Halt Unit × Clock :=
  match c.deadline with
  | some t =>
    if seconds ≠ 0 ∧ t ≤ c.now + seconds then (.error .interrupted, { c with now := t })
    else (.ok (), { c with now := c.now + seconds })
  | none => (.ok (), { c with now := c.now + seconds })

/-- Waits for something that never comes. -/
def sleepForever (c : Clock) : Except Halt Unit × Clock :=
  match c.deadline with
  | some t => (.error .interrupted, { c with now := t })
  | none => (.error .hang, c)

end Clock

/-- How long an answer takes; none if it never comes. -/
abbrev Delay := Option Nat

/-- Whether an answer comes within a limit; one that comes at the limit does. -/
def Delay.within (d : Delay) (limit : Nat) : Bool :=
  match d with
  | some n => n ≤ limit
  | none => false

/-- The next answer, and the answers left. -/
def next? : List α → Option (α × List α)
  | [] => none
  | [a] => some (a, [a])
  | a :: b :: rest => some (a, b :: rest)

end Switchboard.Scripted
