/-
Metered computations.

A metered computation charges its work to a budget, one tick at a time, under the stage it
runs in.  A tick that reaches the limit of the budget, or that comes after the deadline, ends
the computation with a time-out; the charges booked until then stay.

A loop with a tick in each round needs no other bound: `iterate` ends because every tick that
does not end it brings the total closer to the limit.
-/
import ConversionClosure.Work.Budget
import ConversionClosure.Work.Deadline

namespace ConversionClosure

/-- The stages of a pass. -/
inductive Stage
  | load
  | catalog
  | registry
  | closure
  | emission
  | unscoped
deriving DecidableEq, Repr

namespace Stage

/-- The name of a stage. -/
def text : Stage → String
  | load => "load"
  | catalog => "catalog"
  | registry => "registry"
  | closure => "closure"
  | emission => "emission"
  | unscoped => "unscoped"

end Stage

/-- What a computation runs under: the stage it is charged to, and its deadline with a clock. -/
structure Scope where
  stage : String
  timer : Timer

/-- A computation that charges its work. -/
abbrev Metered := ReaderT Scope (ExceptT Fault (StateM Budget))

namespace Scope

/-- The time-out that a charge leads to, if it leads to one. -/
def verdict (scope : Scope) (site : Option Site) (b : Budget) : Option Timeout :=
  if b.isExhausted then some ⟨scope.stage, site, b.total, true⟩
  else if scope.timer.expired b.total then some ⟨scope.stage, site, b.total, false⟩
  else none

theorem total_lt_of_verdict {scope : Scope} {site : Option Site} {b : Budget}
    (h : scope.verdict site b = none) : b.total < b.limit := by
  simp only [verdict, Budget.isExhausted, decide_eq_true_eq] at h
  split at h
  · cases h
  · omega

end Scope

namespace Metered

variable {α σ : Type}

/-- Charges one tick. -/
def tick (site : Site) : Metered Unit := do
  let scope ← read
  modify fun b => b.record scope.stage 1
  match scope.verdict (some site) (← get) with
  | some t => throw (.timeout t)
  | none => return

/-- Runs a computation in a stage of its own. -/
def inStage (stage : String) (x : Metered α) : Metered α :=
  withReader (fun scope => { scope with stage }) x

/-- Repeats a step until it gives no further state, with one tick before each repetition. -/
def iterate (site : Site) (step : σ → Option σ) (s : σ) : Metered σ := fun scope budget =>
  match step s with
  | none => (.ok s, budget)
  | some s' =>
    let b := budget.record scope.stage 1
    match _h : scope.verdict (some site) b with
    | some t => (.error (.timeout t), b)
    | none => iterate site step s' scope b
termination_by _ budget => budget.limit - budget.total
decreasing_by
  have := Scope.total_lt_of_verdict _h
  simp only [b, Budget.limit_record, Budget.total_record] at this ⊢
  omega

/-- The outcome of a computation and the budget after it. -/
def runWith (x : Metered α) (scope : Scope) (budget : Budget) : Except Fault α × Budget :=
  x scope budget

end Metered

end ConversionClosure
