/-
Graphs of conversions.

An edge is a conversion between two different types.  A graph holds each edge once, up to
lifetimes, in the order in which the edges were met; among equal edges the first one stays.
Where order shows, edges are in the order of their texts, so every type needs to have one.
-/
import ConversionClosure.Order
import ConversionClosure.Reference.Complete
import Std.Data.HashMap

namespace ConversionClosure

/-- A conversion from one type to another type. -/
structure Edge where
  source : Reference
  target : Reference
  distinct : ¬ source ≈ target

namespace Edge

/-- The edge between two references, which must be different types. -/
def between (source target : Reference) : Except Fault Edge :=
  if h : source ≈ target then do throw (.broken (.selfConversion (← source.text)))
  else .ok ⟨source, target, h⟩

/-- Two edges are equivalent when their ends are. -/
instance : Setoid Edge where
  r a b := a.source ≈ b.source ∧ a.target ≈ b.target
  iseqv :=
    ⟨fun _ => ⟨Setoid.refl _, Setoid.refl _⟩,
      fun h => ⟨Setoid.symm h.1, Setoid.symm h.2⟩,
      fun h k => ⟨Setoid.trans h.1 k.1, Setoid.trans h.2 k.2⟩⟩

instance (a b : Edge) : Decidable (a ≈ b) :=
  inferInstanceAs (Decidable (a.source ≈ b.source ∧ a.target ≈ b.target))

/-- The text of a conversion. -/
def render (source target : Reference) : String := source.render ++ " -> " ++ target.render

/-- The texts of both ends, by which edges are sorted. -/
def key (source target : Reference) : List String := [source.render, target.render]

end Edge

/-- The conversions that exist. -/
structure Graph where
  edges : List Edge := []
  distinct : edges.Pairwise fun a b => ¬ a ≈ b := by simp

namespace Graph

/-- The graph with an edge, unless it is there already. -/
def insert (g : Graph) (e : Edge) : Graph :=
  if h : ∃ f ∈ g.edges, f ≈ e then g
  else
    { edges := g.edges ++ [e]
      distinct := by
        rw [List.pairwise_append]
        refine ⟨g.distinct, by simp, fun a ha b hb hab => ?_⟩
        rw [List.mem_singleton] at hb
        exact h ⟨a, ha, hb ▸ hab⟩ }

/-- The graph with edges between some pairs, all of which must be of different types. -/
def insertPairs (g : Graph) (pairs : List (Reference × Reference)) : Except Fault Graph := do
  let edges ← pairs.mapM fun (source, target) => Edge.between source target
  return edges.foldl insert g

/-- The graph of some pairs. -/
def ofPairs (pairs : List (Reference × Reference)) : Except Fault Graph :=
  Graph.insertPairs {} pairs

/-- The edges in the order of the texts of their ends. -/
def sortedEdges (g : Graph) : List Edge := sortBy (fun e => Edge.key e.source e.target) g.edges

/-- Both ends of every edge have texts. -/
def hasTexts (g : Graph) : Bool := g.edges.all fun e => e.source.hasText && e.target.hasText

/-- The texts of the edges, in their order. -/
def edgeTexts (g : Graph) : Except Fault (List String) :=
  answerIf g.hasTexts (g.sortedEdges.map fun e => Edge.render e.source e.target)

/-- The types that a type converts to, in the order of their texts. -/
def successors (g : Graph) (source : Reference) : List Reference :=
  sortBy Reference.render ((g.edges.filter fun e => e.source ≈ source).map Edge.target)

/-- There is an edge between two types. -/
def contains (g : Graph) (source target : Reference) : Bool :=
  (g.successors source).any fun r => r ≈ target

/-! ### Looking successors up

A search asks for the successors of the same type many times, so they are kept in a table by
the elided source.
-/

/-- The successors of every type that has some. -/
abbrev Table := Std.HashMap Reference (List Reference)

/-- The table with a further target for a source. -/
def Table.add (t : Table) (e : Edge) : Table :=
  t.insert e.source.elided (t.getD e.source.elided [] ++ [e.target])

/-- The targets of every source, in the order of the edges. -/
def targets (g : Graph) : Table := g.edges.foldl Table.add {}

/-- The successors of every source. -/
def table (g : Graph) : Table := g.targets.map fun _ => sortBy Reference.render

/-- The successors of a type in a table. -/
def Table.successors (t : Table) (source : Reference) : List Reference := t.getD source.elided []

end Graph

end ConversionClosure
