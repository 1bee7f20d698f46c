/-
Orders.

Where order shows, lists are either sorted by a key or are promised to be sorted already.
Sorting is stable.  A promise is checked, and a list that breaks it is refused with the places
of the first two neighbours whose keys descend.
-/
import ConversionClosure.Fault

namespace ConversionClosure

variable {α κ : Type} [Ord κ]

/-- The values in the order of their keys; equal keys keep their order. -/
def sortBy (key : α → κ) (values : List α) : List α :=
  values.mergeSort fun a b => (compare (key a) (key b)).isLE

/-- The place of the first value whose key is above the key of the next value, where the first
of the values has the place `index`. -/
def firstDescent (key : α → κ) (index : Nat) : List α → Option Nat
  | [] => none
  | [_] => none
  | a :: b :: rest =>
    if (compare (key a) (key b)).isGT then some index else firstDescent key (index + 1) (b :: rest)

/-- The values as they are, which `source` promised to be in the order of their keys. -/
def requireOrdered (source : String) (key : α → κ) (values : List α) : Except Fault (List α) :=
  match firstDescent key 0 values with
  | none => .ok values
  | some place => .error (.broken (.unordered source place (place + 1)))

end ConversionClosure
