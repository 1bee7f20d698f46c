/-
Values of data documents.

Configuration tables and declaration documents are read into the same kind of value.  The
fields of a table keep the order in which they were first written, and each key is there
once: writing a key again replaces its value.
-/
import ConversionClosure.Data.Decimal

namespace ConversionClosure

/-- A value of a data document.  Dates, times and numbers that are not finite are kept as
they are written, since nothing here computes with them. -/
inductive Value
  | null
  | bool (b : Bool)
  | int (n : Int)
  | decimal (d : Decimal)
  | text (s : String)
  | list (items : List Value)
  | table (fields : List (String × Value))
  | other (written : String)
deriving Inhabited

namespace Value

/-- The value of a key. -/
def lookup (key : String) : List (String × Value) → Option Value
  | [] => none
  | (k, v) :: fields => if k = key then some v else lookup key fields

/-- The fields with the value of a key replaced, or put at the end if the key is new. -/
def assign (key : String) (value : Value) : List (String × Value) → List (String × Value)
  | [] => [(key, value)]
  | (k, v) :: fields =>
    if k = key then (k, value) :: fields else (k, v) :: assign key value fields

/-- The value of a key in a table; other values have no keys. -/
def field? (key : String) : Value → Option Value
  | table fields => lookup key fields
  | _ => none

end Value

end ConversionClosure
