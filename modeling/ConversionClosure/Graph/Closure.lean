/-
The closure of a graph of conversions.

First routes: every pair of connected types has the trail that breadth-first search finds
first.  Any other simple route between the same types leaves out some edge of it, so a pair
has a second route exactly when its target stays reachable with one edge of its first route
forbidden.

A pair that no edge joins is synthesized when its route is the only one and its target is a
declared type.  Otherwise it is excluded, as ambiguous with two witnesses or as foreign with
its one route.
-/
import ConversionClosure.Catalog
import ConversionClosure.Graph.Search

namespace ConversionClosure

/-- Why a connected pair is not synthesized. -/
inductive ExclusionReason
  | ambiguous
  | foreign
deriving DecidableEq, Repr

namespace ExclusionReason

/-- The name of a reason. -/
def text : ExclusionReason → String
  | ambiguous => "ambiguous"
  | foreign => "foreign"

end ExclusionReason

/-- A conversion that follows from two others: to `via`, and from there to the target. -/
structure Synthesized where
  source : Reference
  target : Reference
  via : Reference
deriving DecidableEq, Repr

namespace Synthesized

/-- The text of a synthesized conversion. -/
def render (s : Synthesized) : String :=
  Edge.render s.source s.target ++ " (via " ++ s.via.render ++ ")"

/-- The texts by which synthesized conversions are sorted. -/
def key (s : Synthesized) : List String := Edge.key s.source s.target

end Synthesized

/-- A connected pair that is not synthesized, with the routes that show why. -/
structure Exclusion where
  source : Reference
  target : Reference
  reason : ExclusionReason
  routes : List (List Reference)
deriving DecidableEq, Repr

namespace Exclusion

/-- The text of an excluded pair. -/
def render (e : Exclusion) : String := Edge.render e.source e.target ++ ": " ++ e.reason.text

/-- The texts by which excluded pairs are sorted. -/
def key (e : Exclusion) : List String := Edge.key e.source e.target

end Exclusion

/-- What becomes of the connected pairs that no edge joins. -/
structure Closure where
  edges : List Synthesized := []
  exclusions : List Exclusion := []
deriving DecidableEq, Repr

namespace Closure

/-- A hop along an edge. -/
abbrev Hop := Reference × Reference

/-- The hops of a route. -/
def hops {ν : Type} (source : ν) : List ν → List (ν × ν)
  | [] => []
  | r :: rest => (source, r) :: hops r rest

/-- The searches run so far: from a source with a hop forbidden, all up to lifetimes. -/
abbrev Detours := Std.HashMap (Reference × Hop) Search

/-- What a search is kept under. -/
def detourKey (source : Reference) (hop : Hop) : Reference × Hop :=
  (source.elided, hop.1.elided, hop.2.elided)

/-- A computation that may look at the searches run before. -/
abbrev Searching := StateT Detours Metered

/-- The first trail of every pair, in the order in which the pairs are found. -/
def saturate (next : Reference → List Reference) (edges : List Edge) : Metered (List Trail) := do
  let start := (edges.map fun e => ({ source := e.source, passed := [e.target] } : Trail)).foldl
    Search.push {}
  return (← Search.run .saturate next (fun _ _ => false) start).trails

/-- Going from one type to another is to take a hop. -/
def isHop (hop : Hop) (a b : Reference) : Bool := (a ≈ hop.1 : Bool) && (b ≈ hop.2 : Bool)

/-- The search from a source with a hop forbidden, run at most once. -/
def detours (next : Reference → List Reference) (source : Reference) (hop : Hop) :
    Searching Search := do
  match (← get)[detourKey source hop]? with
  | some search => return search
  | none =>
    let search ← Search.run .search next (isHop hop) { pending := [{ source }] }
    modify fun known => known.insert (detourKey source hop) search
    return search

/-- The route to a target in a finished search. -/
def routeIn? (search : Search) (source target : Reference) : Option (List Reference) :=
  search.found[(source.elided, target.elided)]?.map fun t => (target :: t.passed.tail).reverse

/-- A route from a source to a target that does not take a hop. -/
def routeAvoiding (next : Reference → List Reference) (source target : Reference) (hop : Hop) :
    Searching (Option (List Reference)) := do
  return routeIn? (← detours next source hop) source target

/-- A route that leaves out the first of some hops that can be left out. -/
def secondRoute (next : Reference → List Reference) (source target : Reference) :
    List Hop → Searching (Option (List Reference))
  | [] => return none
  | hop :: rest => do
    match ← routeAvoiding next source target hop with
    | some route => return some route
    | none => secondRoute next source target rest

/-- What becomes of a pair. -/
inductive Verdict
  | direct
  | synthesized (edge : Synthesized)
  | excluded (exclusion : Exclusion)
deriving DecidableEq, Repr

/-- Judges the pair of a first trail. -/
def judge (next : Reference → List Reference) (isDefined : Reference → Bool) (t : Trail) :
    Searching Verdict := do
  Metered.tick .synthesize
  if (next t.source).any fun r => r ≈ t.target then return .direct
  match ← secondRoute next t.source t.target (hops t.source t.route) with
  | some other => return .excluded ⟨t.source, t.target, .ambiguous, [t.route, other]⟩
  | none =>
    if isDefined t.target then
      return .synthesized ⟨t.source, t.target, t.passed.tail.headD t.source⟩
    else return .excluded ⟨t.source, t.target, .foreign, [t.route]⟩

/-- The synthesized conversion, if the verdict is one. -/
def Verdict.edge? : Verdict → Option Synthesized
  | synthesized edge => some edge
  | _ => none

/-- The exclusion, if the verdict is one. -/
def Verdict.exclusion? : Verdict → Option Exclusion
  | excluded exclusion => some exclusion
  | _ => none

/-- The verdicts on all connected pairs, in the order in which the pairs are found. -/
def verdicts (next : Reference → List Reference) (edges : List Edge)
    (isDefined : Reference → Bool) : Metered (List Verdict) := do
  let trails ← saturate next edges
  (trails.mapM (judge next isDefined)).run' {}

/-- The closure of a graph, where the members of the catalog are the declared types.  It starts
from the edges in the order of their texts. -/
def synthesize (g : Graph) (defined : Catalog) : Metered Closure := do
  unless g.hasTexts do throw .incompleteReference
  let table := g.table
  let verdicts ← verdicts table.successors g.sortedEdges defined.contains
  return {
    edges := sortBy Synthesized.key (verdicts.filterMap Verdict.edge?)
    exclusions := sortBy Exclusion.key (verdicts.filterMap Verdict.exclusion?) }

/-- The graph with the synthesized conversions as edges. -/
def fold (g : Graph) (edges : List Synthesized) : Except Fault Graph :=
  g.insertPairs (edges.map fun e => (e.source, e.target))

end Closure

end ConversionClosure
