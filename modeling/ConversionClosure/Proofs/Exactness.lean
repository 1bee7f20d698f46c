/-
The closure of a graph, told by its simple routes.

The closure never lists the routes of a pair.  What it gives is nevertheless exact: a pair that
no edge joins is synthesized when it has one simple route and a declared target, ambiguous when
it has two, and foreign when it has one and its target is not declared.
-/
import ConversionClosure.Proofs.Verdicts

namespace ConversionClosure

/-- The types that a synthesized conversion joins. -/
def Synthesized.ends (e : Synthesized) : TypeId × TypeId := (e.source.type, e.target.type)

/-- The types of an excluded pair. -/
def Exclusion.ends (e : Exclusion) : TypeId × TypeId := (e.source.type, e.target.type)

namespace Closure

variable {g : Graph} {d : Catalog} {c : Closure} {scope : Scope} {b b' : Budget}
  {e : Synthesized} {x y v : TypeId}

/-- The closure is what the simple routes of the graph say. -/
structure Exact (g : Graph) (d : Catalog) (c : Closure) : Prop where
  /-- Synthesized are the pairs with one simple route and a declared target, each through the
  type before its target. -/
  edges_iff : ∀ x y v, (∃ e ∈ c.edges, e.ends = (x, y) ∧ e.via.type = v) ↔
    x ≠ y ∧ ¬ g.Adj x y ∧ d.Declares y ∧ ∃ p, OnlyRoute g.Adj x y (p ++ [v, y])
  /-- Ambiguous are the pairs with two simple routes, whether or not the target is declared. -/
  ambiguous_iff : ∀ x y, (∃ e ∈ c.exclusions, e.ends = (x, y) ∧ e.reason = .ambiguous) ↔
    ¬ g.Adj x y ∧ ∃ p q, SimpleRoute g.Adj x y p ∧ SimpleRoute g.Adj x y q ∧ p ≠ q
  /-- Foreign are the pairs with one simple route and a target that is not declared. -/
  foreign_iff : ∀ x y, (∃ e ∈ c.exclusions, e.ends = (x, y) ∧ e.reason = .foreign) ↔
    ¬ g.Adj x y ∧ (∃ p, OnlyRoute g.Adj x y p) ∧ ¬ d.Declares y
  /-- No pair appears twice. -/
  nodup : (c.edges.map Synthesized.ends ++ c.exclusions.map Exclusion.ends).Nodup

namespace Settled

theorem edges_iff (h : Settled g d c) :
    (∃ e ∈ c.edges, e.ends = (x, y) ∧ e.via.type = v) ↔
      ¬ g.Adj x y ∧ d.Declares y ∧ ∃ p, OnlyRoute g.Adj x y (p ++ [v, y]) := by
  constructor
  · intro hedge
    obtain ⟨e, he, hends, rfl⟩ := hedge
    obtain ⟨rfl, rfl⟩ := Prod.mk.inj hends
    obtain ⟨t, hroute, hjudged⟩ := h.judged_of_shows (.synthesized e) (by simp) he
    cases hjudged with
    | synthesized hadj honly hdeclared =>
        obtain ⟨p, v, hp⟩ := honly.simple.eq_append_pair hadj
        rw [hp] at honly
        exact ⟨hadj, hdeclared, p, eq_via hp ▸ honly⟩
  · intro hroutes
    obtain ⟨hadj, hdeclared, p, honly⟩ := hroutes
    obtain ⟨t, verdict, hends, hroute, hjudged, hshows⟩ := h.shows_of_route honly.simple
    obtain ⟨rfl, rfl⟩ := Prod.mk.inj hends
    cases hjudged with
    | direct hdirect => exact absurd hdirect hadj
    | ambiguous _ hother => exact absurd honly (hother.not_onlyRoute hroute)
    | foreign _ _ hforeign => exact absurd hdeclared hforeign
    | synthesized _ _ _ =>
        exact ⟨_, hshows, rfl, eq_via (honly.only _ hroute)⟩

theorem ambiguous_iff (h : Settled g d c) :
    (∃ e ∈ c.exclusions, e.ends = (x, y) ∧ e.reason = .ambiguous) ↔
      ¬ g.Adj x y ∧ ∃ p q, SimpleRoute g.Adj x y p ∧ SimpleRoute g.Adj x y q ∧ p ≠ q := by
  constructor
  · intro hexclusion
    obtain ⟨e, he, hends, hreason⟩ := hexclusion
    obtain ⟨rfl, rfl⟩ := Prod.mk.inj hends
    obtain ⟨t, hroute, hjudged⟩ := h.judged_of_shows (.excluded e) (by simp) he
    cases hjudged with
    | ambiguous hadj hother =>
        obtain ⟨hother, hne⟩ := hother.simpleRoute
        exact ⟨hadj, _, _, hother, hroute, hne⟩
    | foreign _ _ _ => simp at hreason
  · intro hroutes
    obtain ⟨hadj, p, q, hp, hq, hne⟩ := hroutes
    obtain ⟨t, verdict, hends, -, hjudged, hshows⟩ := h.shows_of_route hp
    obtain ⟨rfl, rfl⟩ := Prod.mk.inj hends
    cases hjudged with
    | direct hdirect => exact absurd hdirect hadj
    | ambiguous _ _ => exact ⟨_, hshows, rfl, rfl⟩
    | foreign _ honly _ => exact absurd (honly.eq_of_simple hp hq) hne
    | synthesized _ honly _ => exact absurd (honly.eq_of_simple hp hq) hne

theorem foreign_iff (h : Settled g d c) :
    (∃ e ∈ c.exclusions, e.ends = (x, y) ∧ e.reason = .foreign) ↔
      ¬ g.Adj x y ∧ (∃ p, OnlyRoute g.Adj x y p) ∧ ¬ d.Declares y := by
  constructor
  · intro hexclusion
    obtain ⟨e, he, hends, hreason⟩ := hexclusion
    obtain ⟨rfl, rfl⟩ := Prod.mk.inj hends
    obtain ⟨t, -, hjudged⟩ := h.judged_of_shows (.excluded e) (by simp) he
    cases hjudged with
    | ambiguous _ _ => simp at hreason
    | foreign hadj honly hforeign => exact ⟨hadj, ⟨_, honly⟩, hforeign⟩
  · intro hroutes
    obtain ⟨hadj, ⟨p, honly⟩, hforeign⟩ := hroutes
    obtain ⟨t, verdict, hends, hroute, hjudged, hshows⟩ := h.shows_of_route honly.simple
    obtain ⟨rfl, rfl⟩ := Prod.mk.inj hends
    cases hjudged with
    | direct hdirect => exact absurd hdirect hadj
    | ambiguous _ hother => exact absurd honly (hother.not_onlyRoute hroute)
    | foreign _ _ _ => exact ⟨_, hshows, rfl, rfl⟩
    | synthesized _ _ hdeclared => exact absurd hdeclared hforeign

end Settled

/-! ### Every pair once -/

/-- The pair that a verdict shows. -/
def Verdict.ends? : Verdict → Option (TypeId × TypeId)
  | direct => none
  | synthesized e => some e.ends
  | excluded e => some e.ends

/-- The two lists of a closure hold the pairs of its verdicts. -/
theorem ends_perm (vs : List Verdict) :
    ((ofVerdicts vs).edges.map Synthesized.ends ++
      (ofVerdicts vs).exclusions.map Exclusion.ends).Perm (vs.filterMap Verdict.ends?) := by
  have hsort := ((sortBy_perm Synthesized.key (vs.filterMap Verdict.edge?)).map
    Synthesized.ends).append
      ((sortBy_perm Exclusion.key (vs.filterMap Verdict.exclusion?)).map Exclusion.ends)
  refine hsort.trans ?_
  clear hsort
  induction vs with
  | nil => exact List.Perm.refl _
  | cons verdict rest ih =>
      cases verdict with
      | direct => exact ih
      | synthesized e => exact ih.cons e.ends
      | excluded e => exact List.perm_middle.trans (ih.cons e.ends)

/-- Each verdict shows the pair of its trail, if it shows one. -/
theorem ends_sublist {trails : List Trail} {vs : List Verdict}
    (h : List.Forall₂ (Judged g d) trails vs) :
    (vs.filterMap Verdict.ends?).Sublist (trails.map Trail.ends) := by
  induction h with
  | nil => exact List.Sublist.refl _
  | cons hjudged _ ih =>
      cases hjudged with
      | direct _ => exact ih.cons _
      | ambiguous _ _ => exact ih.cons_cons _
      | foreign _ _ _ => exact ih.cons_cons _
      | synthesized _ _ _ => exact ih.cons_cons _

theorem Settled.nodup (h : Settled g d c) :
    (c.edges.map Synthesized.ends ++ c.exclusions.map Exclusion.ends).Nodup := by
  obtain ⟨trails, verdicts, hfirst, hall, rfl⟩ := h
  exact (ends_perm verdicts).nodup_iff.mpr (hfirst.nodup.sublist (ends_sublist hall))

/-- **The closure is exact.**  Whatever a completed run gives is what the simple routes of the
graph say. -/
theorem synthesize_exact (hrun : (synthesize g d).runWith scope b = (.ok c, b')) :
    Exact g d c := by
  have h := settled_of_runWith hrun
  refine ⟨?_, ?_, ?_, h.nodup⟩
  · intro x y v
    rw [h.edges_iff]
    constructor
    · intro hroutes
      obtain ⟨hadj, hdeclared, p, honly⟩ := hroutes
      exact ⟨honly.simple.ne, hadj, hdeclared, p, honly⟩
    · intro hroutes
      exact hroutes.2
  · intro x y
    exact h.ambiguous_iff
  · intro x y
    exact h.foreign_iff

/-! ### Which conversions there are -/

/-- There is a conversion from one type to another, declared or generated. -/
def Available (g : Graph) (c : Closure) (x y : TypeId) : Prop :=
  g.Adj x y ∨ ∃ e ∈ c.edges, e.ends = (x, y)

namespace Settled

/-- A synthesized pair has no edge and a declared target, and its only route ends in the
intermediate type and the target. -/
theorem of_mem_edges (h : Settled g d c) (he : e ∈ c.edges) :
    ¬ g.Adj e.source.type e.target.type ∧ d.Declares e.target.type ∧
      ∃ p, OnlyRoute g.Adj e.source.type e.target.type (p ++ [e.via.type, e.target.type]) :=
  h.edges_iff.mp ⟨e, he, rfl, rfl⟩

/-- A pair with one route is available exactly when it is an edge or its target is declared. -/
theorem available_iff (h : Settled g d c) {route : List TypeId}
    (honly : OnlyRoute g.Adj x y route) : Available g c x y ↔ g.Adj x y ∨ d.Declares y := by
  by_cases hadj : g.Adj x y
  · exact iff_of_true (Or.inl hadj) (Or.inl hadj)
  constructor
  · intro havailable
    rcases havailable with hedge | ⟨e, he, hends⟩
    · exact Or.inl hedge
    · obtain ⟨rfl, rfl⟩ := Prod.mk.inj hends
      exact Or.inr (h.of_mem_edges he).2.1
  · intro hcondition
    rcases hcondition with hedge | hdeclared
    · exact Or.inl hedge
    · obtain ⟨p, v, rfl⟩ := honly.simple.eq_append_pair hadj
      obtain ⟨e, he, hends, -⟩ := h.edges_iff.mpr ⟨hadj, hdeclared, p, honly⟩
      exact Or.inr ⟨e, he, hends⟩

end Settled

/-! ### A chain of four types

From `A` a route leads over `B` and `V` to `T`, and it is the only one.
-/

namespace Relay

/-- The reference to a type by its name. -/
def named (name : String) : Reference := .ofSegments [name]

/-- The conversions from each type of the chain to the next. -/
def graph : Graph where
  edges := [⟨named "A", named "B", by decide⟩, ⟨named "B", named "V", by decide⟩,
    ⟨named "V", named "T", by decide⟩]
  distinct := by decide

/-- All types but `V`. -/
def withoutVia : Catalog where
  decls := [{ name := "A" }, { name := "B" }, { name := "T" }]
  nodup := by decide

/-- All types. -/
def declared : Catalog where
  decls := [{ name := "A" }, { name := "B" }, { name := "V" }, { name := "T" }]
  nodup := by decide

theorem hasTexts : graph.hasTexts = true := by decide

/-- Every simple route along the chain is the only one. -/
theorem onlyRoute {route : List TypeId} (h : SimpleRoute graph.Adj x y route) :
    OnlyRoute graph.Adj x y route := h.onlyRoute_of_rightUnique (Graph.adj_rightUnique (by decide))

theorem onlyRoute_via : OnlyRoute graph.Adj (named "A").type (named "V").type
    [(named "B").type, (named "V").type] := onlyRoute ⟨by decide, by decide, rfl⟩

theorem onlyRoute_target : OnlyRoute graph.Adj (named "A").type (named "T").type
    ([(named "B").type] ++ [(named "V").type, (named "T").type]) :=
  onlyRoute ⟨by decide, by decide, rfl⟩

end Relay

/-- From `A` to `T` the closure of the chain goes through `V`, though it gives no conversion to
`V`, which is not declared. -/
theorem synthesize_exact_relay :
    ∃ scope b c b', (synthesize Relay.graph Relay.withoutVia).runWith scope b = (.ok c, b') ∧
      Exact Relay.graph Relay.withoutVia c ∧
      (∃ e ∈ c.edges, e.ends = ((Relay.named "A").type, (Relay.named "T").type) ∧
        e.via.type = (Relay.named "V").type) ∧
      ∃ e ∈ c.exclusions, e.ends = ((Relay.named "A").type, (Relay.named "V").type) ∧
        e.reason = .foreign := by
  obtain ⟨scope, b, c, b', hrun⟩ := exists_runWith Relay.withoutVia Relay.hasTexts
  have hexact := synthesize_exact hrun
  refine ⟨scope, b, c, b', hrun, hexact, ?_, ?_⟩
  · rw [hexact.edges_iff]
    exact ⟨by decide, by decide, by decide, _, Relay.onlyRoute_target⟩
  · rw [hexact.foreign_iff]
    exact ⟨by decide, ⟨_, Relay.onlyRoute_via⟩, by decide⟩

end Closure

end ConversionClosure
