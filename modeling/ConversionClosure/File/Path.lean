/-
Paths of files.

A path has a root of up to two slashes and components between them.  Empty components and
single dots say nothing and are dropped; two dots stay, since what they mean depends on the
files that are there.  The path without root and components is the current directory.
-/

namespace ConversionClosure

/-- Where a path starts: at the current directory, at the root, or at the root with two slashes,
which is a place of its own. -/
inductive PathRoot
  | relative
  | absolute
  | doubled
deriving DecidableEq, Repr

/-- A path in normal form. -/
structure Path where
  root : PathRoot := .relative
  parts : List String := []
deriving DecidableEq, Repr

namespace Path

/-- The pieces of a text between slashes. -/
def splitSlashes (begun : List Char) : List Char → List (List Char)
  | [] => [begun]
  | '/' :: cs => begun :: splitSlashes [] cs
  | c :: cs => splitSlashes (begun ++ [c]) cs

/-- A component that says nothing. -/
def isIdle (part : List Char) : Bool := part == [] || part == ['.']

/-- The root that a number of leading slashes writes; three and more are one. -/
def rootOf : Nat → PathRoot
  | 0 => .relative
  | 2 => .doubled
  | _ => .absolute

/-- The path that a text writes. -/
def ofText (text : String) : Path :=
  let cs := text.toList
  { root := rootOf (cs.takeWhile (· == '/')).length
    parts := ((splitSlashes [] cs).filter (!isIdle ·)).map String.ofList }

/-- The slashes that write a root. -/
def rootText : PathRoot → String
  | .relative => ""
  | .absolute => "/"
  | .doubled => "//"

/-- The text of a path. -/
def toText (p : Path) : String :=
  if p.root = .relative ∧ p.parts = [] then "." else rootText p.root ++ "/".intercalate p.parts

/-- The path `q` as seen from `p`. -/
def join (p q : Path) : Path :=
  if q.root = .relative then { p with parts := p.parts ++ q.parts } else q

/-- The last component. -/
def name (p : Path) : String := p.parts.getLast?.getD ""

/-- What a name ends in from its last dot on, if that dot is neither its first nor its last
character. -/
def suffixOf (name : List Char) : List Char :=
  let tail := (name.reverse.takeWhile (· != '.')).reverse
  let head := name.length - tail.length
  if 1 < head ∧ tail ≠ [] then '.' :: tail else []

/-- The suffix of the last component, with its dot. -/
def suffix (p : Path) : String := String.ofList (suffixOf p.name.toList)

end Path

end ConversionClosure
