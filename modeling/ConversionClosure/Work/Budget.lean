/-
Work budgets.

A budget bounds the ticks of a pass.  Every charge is booked under the stage that did the
work before the limit is looked at, so the books show where the work went also when the
budget is exhausted: that is, when the total has reached the limit.
-/
import ConversionClosure.Work.Quantity

namespace ConversionClosure

/-- The books of a pass: the limit, the ticks of each stage and their total. -/
structure Budget where
  limit : Nat
  total : Nat := 0
  ledger : List (String × Nat) := []
deriving DecidableEq, Repr

namespace Budget

/-- The ledger with ticks added to a stage. -/
def book (stage : String) (ticks : Nat) : List (String × Nat) → List (String × Nat)
  | [] => [(stage, ticks)]
  | (s, n) :: rest => if s = stage then (s, n + ticks) :: rest else (s, n) :: book stage ticks rest

/-- The ticks of a stage. -/
def spent (b : Budget) (stage : String) : Nat := (b.ledger.lookup stage).getD 0

/-- The budget after some ticks of a stage. -/
def record (b : Budget) (stage : String) (ticks : Nat) : Budget :=
  { b with total := b.total + ticks, ledger := book stage ticks b.ledger }

/-- The ticks have reached the limit. -/
def isExhausted (b : Budget) : Bool := b.limit ≤ b.total

/-- A budget without any charge; its limit is positive. -/
def ofLimit (limit : Quantity) : Except Fault Budget := do
  let n ← limit.toInt
  if n ≤ 0 then throw (.broken (.workLimit limit.shown))
  return { limit := n.toNat }

/-- Charges a stage.  A charge of no tick or fewer is refused and not booked. -/
def charge (b : Budget) (stage : String) (ticks : Quantity) : Except Fault Unit × Budget :=
  match ticks.toInt with
  | .error fault => (.error fault, b)
  | .ok n =>
    if n ≤ 0 then (.error (.broken (.workTicks ticks.shown stage)), b)
    else
      let b := b.record stage n.toNat
      if b.isExhausted then (.error (.exhausted stage b.total b.limit), b) else (.ok (), b)

@[simp] theorem limit_record (b : Budget) (stage : String) (ticks : Nat) :
    (b.record stage ticks).limit = b.limit := rfl

@[simp] theorem total_record (b : Budget) (stage : String) (ticks : Nat) :
    (b.record stage ticks).total = b.total + ticks := rfl

end Budget

end ConversionClosure
