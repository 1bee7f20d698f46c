/-
Deadlines.

A deadline gives a pass some time.  Time itself is not part of the library: what a clock shows is
given from outside, one reading for each amount of work that is done, and any readings will do.  A
deadline is over at a reading that has reached it.
-/
import ConversionClosure.Work.Quantity

namespace ConversionClosure

/-- The time given to a pass. -/
structure Deadline where
  milliseconds : Nat
deriving DecidableEq, Repr

namespace Deadline

/-- The deadline is over once so many nanoseconds have passed since it was set. -/
def expired (d : Deadline) (elapsed : Nat) : Bool := d.milliseconds * 1000000 ≤ elapsed

/-- The deadline some time from now. -/
def ofMilliseconds (given : Quantity) : Except Fault Deadline := do
  let n ← given.toInt
  if n < 0 then throw (.broken (.timeLimit given.shown))
  return ⟨n.toNat⟩

end Deadline

/-- A clock: the nanoseconds that it shows to have passed since the deadline was set, after so many
ticks of work. -/
abbrev Clock := Nat → Nat

/-- The clock that stands still. -/
def Clock.still : Clock := fun _ => 0

/-- A deadline with the clock that is looked at. -/
structure Timer where
  deadline : Deadline
  clock : Clock := .still

/-- A deadline alone: no time passes. -/
instance : Coe Deadline Timer := ⟨fun deadline => { deadline }⟩

/-- The deadline is over after so many ticks. -/
def Timer.expired (t : Timer) (ticks : Nat) : Bool := t.deadline.expired (t.clock ticks)

end ConversionClosure
