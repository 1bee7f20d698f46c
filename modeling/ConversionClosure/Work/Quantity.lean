/-
Amounts as they are given.

Limits and ticks may be given as integers, as decimals or as texts.  The integer that an
amount stands for is cut off toward zero; what is shown of an amount is what was given.
-/
import ConversionClosure.Fault

namespace ConversionClosure

/-- An amount as given. -/
inductive Quantity
  | int (n : Int)
  | decimal (d : Decimal)
  | text (s : String)
deriving DecidableEq, Repr

namespace Quantity

/-- The amount as given, in words. -/
def shown : Quantity → String
  | int n => toString n
  | decimal d => d.shown
  | text s => s

/-- The integer that an amount stands for. -/
def toInt : Quantity → Except Fault Int
  | int n => .ok n
  | decimal d =>
    match d.truncate? with
    | some n => .ok n
    | none => .error .infinite
  | text s => (Text.integer s).mapError (Fault.ofInteger s)

instance : OfNat Quantity n := ⟨int n⟩

end Quantity

end ConversionClosure
