/-
The tree that a TOML document builds.

A document is read statement by statement into one tree.  What a later statement may add to a
table depends on how the table came to be: a header may open each table once, dotted keys may
add to a table that no header has opened, and only while the part of the document that made it
lasts.  Values are closed, so nothing is ever replaced.
-/
import ConversionClosure.Data.Value

namespace ConversionClosure.Toml

/-- How a table came to be: on the way to another table, by a header of its own, or by dotted
keys in a part of the document. -/
inductive Origin
  | implied
  | opened
  | dotted (part : Nat)
deriving DecidableEq, Repr

/-- What stands under a key: a closed value, a table, or a list of tables, of which only the last
one is open. -/
inductive Node
  | value (v : Value)
  | table (origin : Origin) (fields : List (String × Node))
  | tables (earlier : List Value) (fields : List (String × Node))

/-- The fields of an open table. -/
abbrev Fields := List (String × Node)

mutual

/-- The value that a node stands for. -/
def Node.toValue : Node → Value
  | .value v => v
  | .table _ fields => .table (fieldValues fields)
  | .tables earlier fields => .list (earlier ++ [.table (fieldValues fields)])

/-- The values of the fields of a table. -/
def fieldValues : Fields → List (String × Value)
  | [] => []
  | (key, node) :: fields => (key, node.toValue) :: fieldValues fields

end

namespace Fields

/-- What stands under a key. -/
def find (key : String) : Fields → Option Node
  | [] => none
  | (k, node) :: fields => if k = key then some node else find key fields

/-- The fields with something put under a key. -/
def put (key : String) (node : Node) : Fields → Fields
  | [] => [(key, node)]
  | (k, n) :: fields => if k = key then (k, node) :: fields else (k, n) :: put key node fields

/-- The fields after a change in the table that a path of keys leads to.  Tables that are not
there yet are implied, and a path leads through the last table of a list. -/
def change (f : Fields → Option Fields) : List String → Fields → Option Fields
  | [], fields => f fields
  | key :: path, fields =>
    match find key fields with
    | none => (change f path []).map fun inner => put key (.table .implied inner) fields
    | some (.table origin inner) =>
      (change f path inner).map fun inner => put key (.table origin inner) fields
    | some (.tables earlier inner) =>
      (change f path inner).map fun inner => put key (.tables earlier inner) fields
    | some (.value _) => none

/-- The fields with the table of a key opened. -/
def openTable (key : String) (fields : Fields) : Option Fields :=
  match find key fields with
  | none => some (put key (.table .opened []) fields)
  | some (.table .implied inner) => some (put key (.table .opened inner) fields)
  | some _ => none

/-- The fields with a further table in the list of a key. -/
def appendTable (key : String) (fields : Fields) : Option Fields :=
  match find key fields with
  | none => some (put key (.tables [] []) fields)
  | some (.tables earlier inner) =>
    some (put key (.tables (earlier ++ [.table (fieldValues inner)]) []) fields)
  | some _ => none

/-- The fields with a value under a new dotted key, in a part of the document. -/
def define (part : Nat) (v : Value) : List String → Fields → Option Fields
  | [], _ => none
  | [key], fields =>
    match find key fields with
    | none => some (put key (.value v) fields)
    | some _ => none
  | key :: path, fields =>
    match find key fields with
    | none => (define part v path []).map fun inner => put key (.table (.dotted part) inner) fields
    | some (.table .implied inner) =>
      (define part v path inner).map fun inner => put key (.table (.dotted part) inner) fields
    | some (.table (.dotted p) inner) =>
      if p = part then
        (define part v path inner).map fun inner => put key (.table (.dotted part) inner) fields
      else none
    | some _ => none

/-- The fields after a change under the last key of a path. -/
def changeLast (f : String → Fields → Option Fields) (path : List String) (fields : Fields) :
    Option Fields := do
  change (f (← path.getLast?)) path.dropLast fields

end Fields

end ConversionClosure.Toml
