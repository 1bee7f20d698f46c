/-
Simple routes of a directed graph.

A simple route passes no type twice and never comes back to its source.  Two facts about
simple routes are what the closure rests on.

  * Whatever can be reached at all is reached by a simple route.
  * Of two different simple routes between the same ends, each leaves out some hop of the
    other.  So a route is the only one exactly when its target is out of reach as soon as
    any of its hops is taken away.

Nothing here speaks of references: the nodes are of any type, and the edges are any relation
between them.
-/
import ConversionClosure.Graph.Closure
import Mathlib.Data.List.Chain
import Mathlib.Data.List.Nodup
import Mathlib.Logic.Relation

namespace ConversionClosure

open Closure (hops)

variable {ν : Type} {adj : ν → ν → Prop} {hop : ν × ν} {s t v x : ν} {p q route : List ν}

/-- A simple route: the types after the source, each one hop after the type before it, all of
them different and none of them the source, the last one the target. -/
structure SimpleRoute (adj : ν → ν → Prop) (s t : ν) (route : List ν) : Prop where
  chain : List.IsChain adj (s :: route)
  nodup : (s :: route).Nodup
  last : route.getLast? = some t

/-- The only simple route from `s` to `t`. -/
structure OnlyRoute (adj : ν → ν → Prop) (s t : ν) (route : List ν) : Prop where
  simple : SimpleRoute adj s t route
  only : ∀ other, SimpleRoute adj s t other → other = route

namespace SimpleRoute

/-! ### Building and cutting routes -/

theorem single (h : adj s t) (hne : s ≠ t) : SimpleRoute adj s t [t] :=
  ⟨List.isChain_pair.mpr h, by simpa using hne, rfl⟩

theorem mem (h : SimpleRoute adj s t route) : t ∈ route := List.mem_of_getLast? h.last

theorem ne (h : SimpleRoute adj s t route) : s ≠ t := by
  intro heq
  subst heq
  exact (List.nodup_cons.mp h.nodup).1 h.mem

/-- A simple route ends in its target. -/
theorem eq_append (h : SimpleRoute adj s t route) : ∃ before, route = before ++ [t] :=
  List.getLast?_eq_some_iff.mp h.last

theorem mono {adj' : ν → ν → Prop} (hadj : ∀ a b, adj a b → adj' a b)
    (h : SimpleRoute adj s t route) : SimpleRoute adj' s t route :=
  ⟨h.chain.imp hadj, h.nodup, h.last⟩

/-- One more hop, to a type that the route has not passed. -/
theorem extend (h : SimpleRoute adj s v p) (hadj : adj v t) (hs : t ≠ s) (hp : t ∉ p) :
    SimpleRoute adj s t (p ++ [t]) := by
  refine ⟨?_, ?_, by simp⟩
  · rw [← List.cons_append]
    refine h.chain.append (List.isChain_singleton t) ?_
    intro a ha b hb
    obtain rfl : t = b := by simpa using hb
    rw [List.getLast?_cons, h.last] at ha
    obtain rfl : v = a := by simpa using ha
    exact hadj
  · rw [← List.cons_append, List.nodup_append]
    refine ⟨h.nodup, List.nodup_singleton t, ?_⟩
    intro a ha b hb
    obtain rfl : b = t := by simpa using hb
    rcases List.mem_cons.mp ha with rfl | ha
    · exact hs.symm
    · intro heq
      exact hp (heq ▸ ha)

/-- The part of a route up to a type that it passes. -/
theorem upTo (h : SimpleRoute adj s t (p ++ v :: q)) : SimpleRoute adj s v (p ++ [v]) := by
  have hsplit : s :: (p ++ v :: q) = (s :: (p ++ [v])) ++ q := by simp
  have hchain := h.chain
  have hnodup := h.nodup
  rw [hsplit] at hchain hnodup
  exact ⟨hchain.left_of_append, (List.nodup_append.mp hnodup).1, by simp⟩

/-- What is left of a route behind its first hop. -/
theorem tail (h : SimpleRoute adj s t (x :: p)) : x = t ∧ p = [] ∨ SimpleRoute adj x t p := by
  rcases p with _ | ⟨y, p⟩
  · exact Or.inl ⟨by simpa using h.last, rfl⟩
  · refine Or.inr ⟨h.chain.tail, (List.nodup_cons.mp h.nodup).2, ?_⟩
    rw [← h.last, List.getLast?_cons_cons]

/-- A route between types that no edge joins passes some type last before its target. -/
theorem eq_append_pair (h : SimpleRoute adj s t route) (hadj : ¬ adj s t) :
    ∃ p v, route = p ++ [v, t] := by
  obtain ⟨before, rfl⟩ := h.eq_append
  rcases List.eq_nil_or_concat before with rfl | ⟨p, v, rfl⟩
  · exact absurd (List.isChain_pair.mp h.chain) hadj
  · exact ⟨p, v, by simp⟩

/-- The last hop of a route. -/
theorem last_hop (h : SimpleRoute adj s t (p ++ [v, t])) : adj v t := by
  have hsuffix : [v, t] <:+ s :: (p ++ [v, t]) := ⟨s :: p, by simp⟩
  exact List.isChain_pair.mp (h.chain.suffix hsuffix)

/-- **Whatever can be reached is reached by a simple route.** -/
theorem exists_of_reflTransGen (h : Relation.ReflTransGen adj s t) (hne : s ≠ t) :
    ∃ route, SimpleRoute adj s t route := by
  induction h with
  | refl => exact absurd rfl hne
  | @tail v t _ hadj ih =>
      by_cases hv : s = v
      · exact ⟨[t], single (hv ▸ hadj) hne⟩
      obtain ⟨p, hp⟩ := ih hv
      by_cases ht : t ∈ p
      · -- the route to `v` passes `t` already
        obtain ⟨before, after, rfl⟩ := List.append_of_mem ht
        exact ⟨before ++ [t], hp.upTo⟩
      · exact ⟨p ++ [t], hp.extend hadj hne.symm ht⟩

theorem transGen (h : SimpleRoute adj s t route) : Relation.TransGen adj s t := by
  induction route generalizing s with
  | nil => exact absurd h.last (by simp)
  | cons x p ih =>
      have hx : adj s x := (List.isChain_cons_cons.mp h.chain).1
      rcases h.tail with ⟨rfl, -⟩ | hp
      · exact Relation.TransGen.single hx
      · exact Relation.TransGen.head hx (ih hp)

/-! ### Leaving out a hop

`Without adj hop` is the graph with one edge taken away.  Its simple routes are those of the
whole graph that do not take the hop.
-/

end SimpleRoute

/-- The edges without one of them. -/
def Without (adj : ν → ν → Prop) (hop : ν × ν) (a b : ν) : Prop := adj a b ∧ (a, b) ≠ hop

theorem fst_mem_of_mem_hops {a b : ν} (h : (a, b) ∈ hops s route) : a ∈ s :: route := by
  induction route generalizing s with
  | nil => simp [hops] at h
  | cons x p ih =>
      rcases List.mem_cons.mp h with hx | hp
      · simp [(Prod.mk.inj hx).1]
      · exact List.mem_cons_of_mem s (ih hp)

theorem isChain_without_iff :
    List.IsChain (Without adj hop) (s :: route) ↔
      List.IsChain adj (s :: route) ∧ hop ∉ hops s route := by
  induction route generalizing s with
  | nil => simp [hops]
  | cons x p ih =>
      rw [List.isChain_cons_cons, List.isChain_cons_cons, ih, hops, List.mem_cons, not_or, Without]
      have hcomm : (s, x) ≠ hop ↔ hop ≠ (s, x) := ne_comm
      tauto

namespace SimpleRoute

theorem without_iff :
    SimpleRoute (Without adj hop) s t route ↔ SimpleRoute adj s t route ∧ hop ∉ hops s route := by
  constructor
  · intro h
    obtain ⟨hchain, hhop⟩ := isChain_without_iff.mp h.chain
    exact ⟨⟨hchain, h.nodup, h.last⟩, hhop⟩
  · intro hboth
    obtain ⟨h, hhop⟩ := hboth
    exact ⟨isChain_without_iff.mpr ⟨h.chain, hhop⟩, h.nodup, h.last⟩

/-- A route is known by its hops. -/
theorem eq_of_hops_subset (hp : SimpleRoute adj s t p) (hq : SimpleRoute adj s t q)
    (hsub : ∀ hop ∈ hops s p, hop ∈ hops s q) : p = q := by
  induction p generalizing s q with
  | nil => exact absurd hp.last (by simp)
  | cons x p ih =>
      rcases q with _ | ⟨y, q⟩
      · exact absurd hq.last (by simp)
      have hs : s ∉ y :: q := (List.nodup_cons.mp hq.nodup).1
      -- the first hops are the same, since no later hop of `q` starts in `s`
      obtain rfl : x = y := by
        rcases List.mem_cons.mp (hsub (s, x) (by simp [hops])) with hx | hx
        · exact (Prod.mk.inj hx).2
        · exact absurd (fst_mem_of_mem_hops hx) hs
      rcases hp.tail with ⟨rfl, rfl⟩ | hp'
      · rcases hq.tail with ⟨-, rfl⟩ | hq'
        · rfl
        · exact absurd rfl hq'.ne
      rcases hq.tail with ⟨rfl, -⟩ | hq'
      · exact absurd rfl hp'.ne
      rw [ih hp' hq' ?_]
      intro hop hab
      obtain ⟨a, b⟩ := hop
      rcases List.mem_cons.mp (hsub (a, b) (List.mem_cons_of_mem _ hab)) with hx | hx
      · obtain rfl : a = s := (Prod.mk.inj hx).1
        exact absurd (fst_mem_of_mem_hops hab) (List.nodup_cons.mp hp.nodup).1
      · exact hx

/-- **A route has a second one beside it exactly when its target can still be reached with one
of its hops taken away.** -/
theorem exists_ne_iff (hp : SimpleRoute adj s t p) :
    (∃ q, SimpleRoute adj s t q ∧ q ≠ p) ↔
      ∃ hop ∈ hops s p, ∃ q, SimpleRoute (Without adj hop) s t q := by
  constructor
  · intro hsecond
    obtain ⟨q, hq, hne⟩ := hsecond
    by_contra hall
    push Not at hall
    refine hne (hp.eq_of_hops_subset hq fun hop hhop => ?_).symm
    by_contra hout
    exact hall hop hhop q (without_iff.mpr ⟨hq, hout⟩)
  · intro hleft
    obtain ⟨hop, hhop, q, hq⟩ := hleft
    obtain ⟨hq, hout⟩ := without_iff.mp hq
    refine ⟨q, hq, ?_⟩
    intro heq
    exact hout (heq ▸ hhop)

theorem onlyRoute_iff (hp : SimpleRoute adj s t p) :
    OnlyRoute adj s t p ↔ ∀ hop ∈ hops s p, ∀ q, ¬ SimpleRoute (Without adj hop) s t q := by
  rw [← not_iff_not]
  push Not
  rw [← hp.exists_ne_iff]
  constructor
  · intro h
    by_contra hall
    push Not at hall
    exact h ⟨hp, hall⟩
  · intro hsecond honly
    obtain ⟨q, hq, hne⟩ := hsecond
    exact hne (honly.only q hq)

/-- Where each type has at most one successor, a simple route is the only one. -/
theorem onlyRoute_of_rightUnique (hadj : Relator.RightUnique adj) (hp : SimpleRoute adj s t p) :
    OnlyRoute adj s t p := by
  refine ⟨hp, ?_⟩
  intro q hq
  induction p generalizing s q with
  | nil => exact absurd hp.last (by simp)
  | cons x p ih =>
      rcases q with _ | ⟨y, q⟩
      · exact absurd hq.last (by simp)
      obtain rfl : y = x := hadj (List.isChain_cons_cons.mp hq.chain).1
        (List.isChain_cons_cons.mp hp.chain).1
      rcases hp.tail with ⟨rfl, rfl⟩ | hp'
      · rcases hq.tail with ⟨-, rfl⟩ | hq'
        · rfl
        · exact absurd rfl hq'.ne
      rcases hq.tail with ⟨rfl, -⟩ | hq'
      · exact absurd rfl hp'.ne
      rw [ih hp' q hq']

end SimpleRoute

/-! ### Routes that are the only ones -/

namespace OnlyRoute

theorem unique (h : OnlyRoute adj s t p) (h' : OnlyRoute adj s t q) : p = q :=
  h'.only p h.simple

theorem eq_of_simple (h : OnlyRoute adj s t route) (hp : SimpleRoute adj s t p)
    (hq : SimpleRoute adj s t q) : p = q := (h.only p hp).trans (h.only q hq).symm

theorem eq_single (h : OnlyRoute adj s t p) (hadj : adj s t) : p = [t] :=
  (h.only [t] (SimpleRoute.single hadj h.simple.ne)).symm

/-- **Every part of an only route that starts in its source is an only route.**  Another route
to the last type but one either goes on to the target, as a second route to it, or has passed
the target before, and then its part up to there is one. -/
theorem before (h : OnlyRoute adj s t (p ++ [v, t])) : OnlyRoute adj s v (p ++ [v]) := by
  have hv : SimpleRoute adj s v (p ++ [v]) := h.simple.upTo (q := [t])
  refine ⟨hv, fun q hq => ?_⟩
  by_cases ht : t ∈ q
  · obtain ⟨l, r, rfl⟩ := List.append_of_mem ht
    -- up to the target, `q` is the only route, so it has passed `v` before
    have heq : l ++ [t] = (p ++ [v]) ++ [t] := by simpa using h.only _ hq.upTo
    obtain rfl : l = p ++ [v] := List.append_cancel_right heq
    have hvl : v ∈ t :: r := by
      have hlast := hq.last
      rw [List.getLast?_append_cons] at hlast
      exact List.mem_of_getLast? hlast
    have hdisj := (List.nodup_append.mp (List.nodup_cons.mp hq.nodup).2).2.2
    exact absurd rfl (hdisj v (by simp) v hvl)
  · have heq : q ++ [t] = (p ++ [v]) ++ [t] := by
      simpa using h.only _ (hq.extend h.simple.last_hop h.simple.ne.symm ht)
    exact List.append_cancel_right heq

end OnlyRoute

end ConversionClosure
