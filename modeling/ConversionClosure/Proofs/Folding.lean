/-
The closure of a graph with its closure folded in.

Once the synthesized conversions are edges, nothing is left to synthesize.  Folding adds edges
only between types that a route has connected before, so it changes what is one hop away but
not what can be reached.  Every simple route of the graph is still one.  So a pair that has one
simple route afterwards had the same one before, and then it has been synthesized and is an
edge by now.  A pair with two routes keeps both of them, and as it was not synthesized it has no
edge afterwards either.
-/
import ConversionClosure.Proofs.Exactness
import ConversionClosure.Proofs.Parts

namespace ConversionClosure

variable {g g' : Graph} {d : Catalog} {c : Closure} {scope : Scope} {b b' : Budget}
  {x y : TypeId}

/-! ### Texts -/

namespace Reference

/-- Lifetimes do not matter to whether there is a text. -/
theorem hasText_elided (r : Reference) : r.elided.hasText = r.hasText := by
  induction r using induction with
  | node r ih =>
      obtain ⟨modifier, segments, args, length, lifetime⟩ := r
      have hall : allHaveText (args.map elided) = allHaveText args := by
        rw [allHaveText_eq, allHaveText_eq, List.all_map, Bool.eq_iff_iff, List.all_eq_true,
          List.all_eq_true]
        refine forall₂_congr fun a ha => ?_
        rw [Function.comp_apply, ih a ha]
      have hfirst : firstHasText (args.map elided) = firstHasText args := by
        cases args with
        | nil => rfl
        | cons a rest => exact ih a (by simp)
      rw [elided, elidedAll_eq_map]
      cases modifier
      all_goals simp only [hasText, hall, hfirst]

theorem hasText_congr {a b : Reference} (h : a.type = b.type) : a.hasText = b.hasText := by
  rw [← hasText_elided a, ← hasText_elided b, elided_eq_iff.mpr h]

end Reference

namespace Graph

theorem hasTexts_iff :
    g.hasTexts = true ↔ ∀ e ∈ g.edges, e.source.hasText = true ∧ e.target.hasText = true := by
  simp only [hasTexts, List.all_eq_true, Bool.and_eq_true]

/-- Edges between types that are connected already do not lack any text. -/
theorem hasTexts_of_transGen (h : g.hasTexts = true)
    (hadj : ∀ x y, g'.Adj x y → Relation.TransGen g.Adj x y) : g'.hasTexts = true := by
  rw [hasTexts_iff] at h ⊢
  intro e he
  have hpath : Relation.TransGen g.Adj e.source.type e.target.type := hadj _ _ ⟨e, he, rfl⟩
  constructor
  · obtain ⟨v, ⟨f, hf, hends⟩, -⟩ := Relation.TransGen.head'_iff.mp hpath
    rw [← Reference.hasText_congr (Prod.mk.inj hends).1]
    exact (h f hf).1
  · obtain ⟨v, -, ⟨f, hf, hends⟩⟩ := Relation.TransGen.tail'_iff.mp hpath
    rw [← Reference.hasText_congr (Prod.mk.inj hends).2]
    exact (h f hf).2

/-! ### Insertion of pairs -/

theorem exists_mapM_between {pairs : List (Reference × Reference)}
    (h : ∀ p ∈ pairs, p.1.type ≠ p.2.type) :
    ∃ edges, (pairs.mapM fun p => Edge.between p.1 p.2) = .ok edges ∧
      edges.map Edge.pair = pairs := by
  induction pairs with
  | nil => exact ⟨[], rfl, rfl⟩
  | cons p rest ih =>
      obtain ⟨edges, hedges, hpairs⟩ := ih fun q hq => h q (by simp [hq])
      have hdistinct : ¬ p.1 ≈ p.2 := by
        rw [← Reference.type_eq_iff]
        exact h p (by simp)
      have hp : Edge.between p.1 p.2 = .ok ⟨p.1, p.2, hdistinct⟩ := by
        rw [Edge.between, dif_neg hdistinct]
      refine ⟨⟨p.1, p.2, hdistinct⟩ :: edges, ?_, ?_⟩
      · rw [List.mapM_cons, hp, hedges]
        rfl
      · rw [List.map_cons, hpairs]
        rfl

/-- Pairs of different types can be inserted, and then they are edges. -/
theorem exists_insertPairs {pairs : List (Reference × Reference)}
    (h : ∀ p ∈ pairs, p.1.type ≠ p.2.type) :
    ∃ g', g.insertPairs pairs = .ok g' ∧
      (∀ e ∈ g'.edges, e ∈ g.edges ∨ e.pair ∈ pairs) ∧
      ∀ x y, g'.Adj x y ↔ g.Adj x y ∨ ∃ p ∈ pairs, (p.1.type, p.2.type) = (x, y) := by
  obtain ⟨edges, hedges, rfl⟩ := exists_mapM_between h
  refine ⟨edges.foldl insert g, ?_, ?_, ?_⟩
  · rw [insertPairs, hedges]
    rfl
  · intro e he
    rcases mem_foldl_insert edges he with he | he
    · exact Or.inl he
    · exact Or.inr (List.mem_map_of_mem he)
  · intro x y
    simp only [adj_foldl_insert, List.mem_map, exists_exists_and_eq_and]
    rfl

end Graph

namespace Closure

/-! ### The folded graph -/

/-- Folding never meets a conversion from a type to itself, and afterwards every conversion that
there is has an edge. -/
theorem Settled.exists_fold (h : Settled g d c) :
    ∃ g', fold g c.edges = .ok g' ∧ ∀ x y, g'.Adj x y ↔ Available g c x y := by
  have hne : ∀ p ∈ c.edges.map fun e => (e.source, e.target), p.1.type ≠ p.2.type := by
    intro p hp
    obtain ⟨e, he, rfl⟩ := List.mem_map.mp hp
    obtain ⟨-, -, q, honly⟩ := h.of_mem_edges he
    exact honly.simple.ne
  obtain ⟨g', hfold, -, hadj⟩ := Graph.exists_insertPairs (g := g) hne
  refine ⟨g', hfold, ?_⟩
  intro x y
  rw [hadj, Available]
  simp only [List.mem_map, exists_exists_and_eq_and, Synthesized.ends]

/-- Whatever is available was connected before. -/
theorem Settled.transGen_of_available (h : Settled g d c) (havailable : Available g c x y) :
    Relation.TransGen g.Adj x y := by
  rcases havailable with hadj | ⟨e, he, hends⟩
  · exact Relation.TransGen.single hadj
  · obtain ⟨rfl, rfl⟩ := Prod.mk.inj hends
    obtain ⟨-, -, p, honly⟩ := h.of_mem_edges he
    exact honly.simple.transGen

section Folded

variable {c' : Closure} (hadj : ∀ x y, g'.Adj x y ↔ Available g c x y)
include hadj

theorem transGen_fold_iff (h : Settled g d c) :
    Relation.TransGen g'.Adj x y ↔ Relation.TransGen g.Adj x y := by
  constructor
  · refine Relation.TransGen.closed ?_ x y
    intro a b hab
    exact h.transGen_of_available ((hadj a b).mp hab)
  · refine Relation.TransGen.mono ?_ x y
    intro a b hab
    exact (hadj a b).mpr (Or.inl hab)

/-- Simple routes stay when edges are added. -/
theorem simpleRoute_fold {route : List TypeId} (hroute : SimpleRoute g.Adj x y route) :
    SimpleRoute g'.Adj x y route :=
  hroute.mono fun a b hab => (hadj a b).mpr (Or.inl hab)

/-- A pair that has one route in the folded graph had the same one before. -/
theorem onlyRoute_of_fold (h : Settled g d c) {route : List TypeId}
    (honly : OnlyRoute g'.Adj x y route) : OnlyRoute g.Adj x y route := by
  have hpath := (transGen_fold_iff hadj h).mp honly.simple.transGen
  obtain ⟨p, hp⟩ := SimpleRoute.exists_of_reflTransGen hpath.to_reflTransGen honly.simple.ne
  obtain rfl : p = route := honly.only p (simpleRoute_fold hadj hp)
  exact ⟨hp, fun q hq => honly.only q (simpleRoute_fold hadj hq)⟩

/-- The folded graph has nothing to synthesize. -/
theorem edges_fold_eq_nil (h : Settled g d c) (h' : Settled g' d c') : c'.edges = [] := by
  refine List.eq_nil_iff_forall_not_mem.mpr ?_
  intro e he
  obtain ⟨hnot, hdeclared, p, honly⟩ := h'.of_mem_edges he
  have havailable := (h.available_iff (onlyRoute_of_fold hadj h honly)).mpr (Or.inr hdeclared)
  exact hnot ((hadj _ _).mpr havailable)

/-- What was ambiguous stays ambiguous: its routes are still there, and there is no edge now. -/
theorem ambiguous_fold (h : Settled g d c) (h' : Settled g' d c')
    (hambiguous : ∃ e ∈ c.exclusions, e.ends = (x, y) ∧ e.reason = .ambiguous) :
    ∃ e ∈ c'.exclusions, e.ends = (x, y) ∧ e.reason = .ambiguous := by
  obtain ⟨hnot, p, q, hp, hq, hne⟩ := h.ambiguous_iff.mp hambiguous
  refine h'.ambiguous_iff.mpr ⟨?_, p, q, simpleRoute_fold hadj hp, simpleRoute_fold hadj hq, hne⟩
  rw [hadj]
  intro havailable
  rcases havailable with hedge | ⟨e, he, hends⟩
  · exact hnot hedge
  · obtain ⟨rfl, rfl⟩ := Prod.mk.inj hends
    obtain ⟨-, -, r, honly⟩ := h.of_mem_edges he
    exact hne (honly.eq_of_simple hp hq)

end Folded

/-- **The closure is a fixed point once folded.**  Folding succeeds and reaches what was reached
before.  The closure of the folded graph comes to an end wherever enough ticks are allowed; it has
no edges, and what was ambiguous is ambiguous still. -/
theorem fold_fixed (hrun : (synthesize g d).runWith scope b = (.ok c, b')) :
    ∃ g', fold g c.edges = .ok g' ∧
      (∀ x y, Relation.TransGen g'.Adj x y ↔ Relation.TransGen g.Adj x y) ∧
      ∃ c' n, (∀ (scope : Scope) (b : Budget), scope.timer.Allows b.limit b.total (b.total + n) →
          ∃ b', (synthesize g' d).runWith scope b = (.ok c', b')) ∧
        (∀ scope b c'' b', (synthesize g' d).runWith scope b = (.ok c'', b') → c'' = c') ∧
        c'.edges = [] ∧
        ∀ x y, (∃ e ∈ c.exclusions, e.ends = (x, y) ∧ e.reason = .ambiguous) →
          ∃ e ∈ c'.exclusions, e.ends = (x, y) ∧ e.reason = .ambiguous := by
  have h := settled_of_runWith hrun
  obtain ⟨g', hfold, hadj⟩ := h.exists_fold
  have htexts : g'.hasTexts = true := by
    refine Graph.hasTexts_of_transGen (hasTexts_of_runWith hrun) ?_
    intro x y hxy
    exact h.transGen_of_available ((hadj x y).mp hxy)
  obtain ⟨c', n, h', hcompletes, honly⟩ := exists_completes d htexts
  refine ⟨g', hfold, ?_, c', n, hcompletes, honly, edges_fold_eq_nil hadj h h', ?_⟩
  · intro x y
    exact transGen_fold_iff hadj h
  · intro x y hambiguous
    exact ambiguous_fold hadj h h' hambiguous

/-- In the chain, folding makes edges from `A` and from `B` to `T`, and then the closure is
empty of edges. -/
theorem fold_fixed_relay :
    ∃ scope b c b' g', (synthesize Relay.graph Relay.withoutVia).runWith scope b = (.ok c, b') ∧
      fold Relay.graph c.edges = .ok g' ∧ c.edges ≠ [] ∧
      ∃ scope b c' b', (synthesize g' Relay.withoutVia).runWith scope b = (.ok c', b') ∧
        c'.edges = [] := by
  obtain ⟨scope, b, c, b', hrun⟩ := exists_runWith Relay.withoutVia Relay.hasTexts
  obtain ⟨g', hfold, -, c', n, hcompletes, -, hnil, -⟩ := fold_fixed hrun
  obtain ⟨b'', hrun'⟩ := hcompletes (.unhurried .closure) { limit := n + 1 }
    (Timer.allows_of_lt (Scope.expired_unhurried _) (by simp))
  have hedge := (settled_of_runWith hrun).edges_iff.mpr
    ⟨by decide, by decide, _, Relay.onlyRoute_target⟩
  refine ⟨scope, b, c, b', g', hrun, hfold, ?_, _, _, c', b'', hrun', hnil⟩
  obtain ⟨e, he, -⟩ := hedge
  exact List.ne_nil_of_mem he

end Closure

end ConversionClosure
