/-
What a tick is charged against, step by step.

Outside a pass the deadline, the budget and the stage are carried separately and may be
absent.  A missing deadline is noticed before a missing budget, and without a stage work is
charged to the stage `unscoped`.
-/
import ConversionClosure.Work.Metered

namespace ConversionClosure

/-- The deadline, the budget and the stage in force. -/
structure Carrier where
  deadline : Option Deadline := none
  budget : Option Budget := none
  stage : Option String := none
deriving DecidableEq, Repr

namespace Carrier

/-- The stage that work is charged to. -/
def currentStage (c : Carrier) : String := c.stage.getD Stage.unscoped.text

/-- Charges a stage of the budget. -/
def charge (c : Carrier) (stage : String) (ticks : Quantity) : Except Fault Unit × Carrier :=
  match c.budget with
  | none => (.error (.broken .noBudget), c)
  | some b =>
    let (outcome, b) := b.charge stage ticks
    (outcome, { c with budget := some b })

/-- Charges the stage in force, and then looks at the deadline and at how much time has passed since
it was set.  Running out of work is a time-out here. -/
def check (c : Carrier) (ticks : Quantity) (elapsed : Nat := 0) : Except Fault Unit × Carrier :=
  match c.deadline, c.budget with
  | none, _ => (.error (.broken .noDeadline), c)
  | _, none => (.error (.broken .noBudget), c)
  | some deadline, some b =>
    let stage := c.currentStage
    let (outcome, b) := b.charge stage ticks
    let c := { c with budget := some b }
    match outcome with
    | .error (.exhausted stage spent _) => (.error (.timeout ⟨stage, none, spent, true⟩), c)
    | .error fault => (.error fault, c)
    | .ok () =>
      if deadline.expired elapsed then (.error (.timeout ⟨stage, none, b.total, false⟩), c)
      else (.ok (), c)

/-- Puts another deadline in force. -/
def setDeadline (c : Carrier) (milliseconds : Option Quantity) : Except Fault Unit × Carrier :=
  match milliseconds with
  | none => (.ok (), { c with deadline := none })
  | some given =>
    match Deadline.ofMilliseconds given with
    | .ok d => (.ok (), { c with deadline := some d })
    | .error fault => (.error fault, c)

/-- Puts a new budget in force. -/
def setBudget (c : Carrier) (limit : Quantity) : Except Fault Unit × Carrier :=
  match Budget.ofLimit limit with
  | .ok b => (.ok (), { c with budget := some b })
  | .error fault => (.error fault, c)

/-- Opens and closes an inner budget of some limit, then charges one tick to what was in force
before: what is inner leaves no trace.  Without a stage the outer one is named `outer`. -/
def nested (c : Carrier) (limit : Quantity) (elapsed : Nat := 0) : Except Fault Unit × Carrier :=
  match Budget.ofLimit limit with
  | .error fault => (.error fault, c)
  | .ok _ =>
    let (outcome, inner) := { c with stage := some (c.stage.getD "outer") }.check 1 elapsed
    (outcome, { c with budget := inner.budget })

end Carrier

end ConversionClosure
