/-
Breadth-first search.

A search keeps the trails that it has found, each from its source to a type, and extends the
oldest one that it has not extended yet by one edge at a time.  The first trail to a type is
the one that stays.  Trails never come back to their source, and an edge may be forbidden.

The same search serves two ends: from all edges at once it finds the first trail of every
pair of connected types, and from one type with an edge forbidden it finds detours.
-/
import ConversionClosure.Graph.Basic
import ConversionClosure.Work.Metered

namespace ConversionClosure

/-- A way from a source along edges: the types passed, the last one first. -/
structure Trail where
  source : Reference
  passed : List Reference := []
deriving DecidableEq, Repr

namespace Trail

/-- The type that the trail ends in. -/
def target (t : Trail) : Reference := t.passed.headD t.source

/-- The types after the source, in order. -/
def route (t : Trail) : List Reference := t.passed.reverse

/-- The trail with one more type at its end. -/
def extend (t : Trail) (r : Reference) : Trail := { t with passed := r :: t.passed }

/-- What a trail is found under: both ends, up to lifetimes. -/
def key (t : Trail) : Reference × Reference := (t.source.elided, t.target.elided)

end Trail

/-- A search under way: the trails that were extended, the last one first, those that were not
yet, the oldest first, and the first trail found under each key. -/
structure Search where
  extended : List Trail := []
  pending : List Trail := []
  found : Std.HashMap (Reference × Reference) Trail := {}

namespace Search

/-- The search with a trail to be extended, unless there is one with its ends. -/
def push (s : Search) (t : Trail) : Search :=
  if s.found.contains t.key then s
  else { s with pending := s.pending ++ [t], found := s.found.insert t.key t }

/-- The trails that extend a trail by one edge: not back to the source, and not along a
forbidden edge. -/
def onward (next : Reference → List Reference) (forbidden : Reference → Reference → Bool)
    (t : Trail) : List Trail :=
  ((next t.target).filter fun r => !(r ≈ t.source : Bool) && !forbidden t.target r).map t.extend

/-- The search with its oldest pending trail extended; none if no trail is pending. -/
def step? (next : Reference → List Reference) (forbidden : Reference → Reference → Bool)
    (s : Search) : Option Search :=
  match s.pending with
  | [] => none
  | t :: pending =>
    let s := { s with extended := t :: s.extended, pending }
    some ((onward next forbidden t).foldl push s)

/-- The search from some trails until no trail is pending, with one tick for every extension. -/
def run (site : Site) (next : Reference → List Reference)
    (forbidden : Reference → Reference → Bool) (start : Search) : Metered Search :=
  Metered.iterate site (step? next forbidden) start

/-- All trails in the order in which they were found. -/
def trails (s : Search) : List Trail := s.extended.reverse ++ s.pending

end Search

end ConversionClosure
