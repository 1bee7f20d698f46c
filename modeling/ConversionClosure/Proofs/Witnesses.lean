/-
The routes that an exclusion is shown with.

An exclusion carries routes as its reasons, and they are reasons indeed.  The routes of an
ambiguous pair are two different simple routes between its types.  The first is as short as any
walk.  The second goes around the first hop that can be gone around at all, and it is as short as
any walk that does so (`Ambiguity`).  The one route of a foreign pair is its only simple route.

That holds whichever finished search the second route was read from, since what is kept under a key
is a finished search for that key (`Kept`).
-/
import ConversionClosure.Proofs.Exactness

namespace ConversionClosure

open Closure (hops)

section Routes

variable {ν : Type} {adj : ν → ν → Prop} {s t : ν} {p q route : List ν}

/-- Two routes that show a pair to be ambiguous.  Neither passes a type twice or comes back to its
source. -/
structure Ambiguity (adj : ν → ν → Prop) (s t : ν) (p q : List ν) : Prop where
  first : SimpleRoute adj s t p
  second : SimpleRoute adj s t q
  ne : p ≠ q
  two_le_first : 2 ≤ p.length
  two_le_second : 2 ≤ q.length
  /-- No walk is shorter than the first route. -/
  shortest : ∀ route, Walk adj s t route → p.length ≤ route.length
  /-- The second route leaves out the earliest hop of the first without which the target can still
  be reached, and no walk that leaves it out is shorter. -/
  detour : ∃ before hop after, hops s p = before ++ hop :: after ∧
    (∀ h ∈ before, ¬ Relation.TransGen (Without adj h) s t) ∧
    SimpleRoute (Without adj hop) s t q ∧
    ∀ route, Walk (Without adj hop) s t route → q.length ≤ route.length

/-- A walk between types that no edge joins has two hops. -/
theorem Walk.two_le_length (h : Walk adj s t route) (hadj : ¬ adj s t) : 2 ≤ route.length := by
  rcases route with _ | ⟨x, _ | ⟨y, rest⟩⟩
  · cases h.last
  · obtain rfl : x = t := by simpa using h.last
    exact absurd (List.isChain_pair.mp h.chain) hadj
  · exact Nat.le_add_left 2 rest.length

theorem SimpleRoute.not_transGen (hne : s ≠ t) (h : ∀ route, ¬ SimpleRoute adj s t route) :
    ¬ Relation.TransGen adj s t := by
  intro hreach
  obtain ⟨route, hroute⟩ := SimpleRoute.exists_of_reflTransGen hreach.to_reflTransGen hne
  exact h route hroute

end Routes

namespace Closure

variable {g : Graph} {d : Catalog} {c : Closure} {t : Trail} {scope : Scope} {b b' : Budget}

/-- A first trail that is as short as any walk makes an ambiguity with the route that leaves out one
of its hops. -/
theorem LeavesOut.ambiguity {other : List Reference} (hroute : t.IsRoute g.Adj)
    (hshortest : ∀ route, Walk g.Adj t.source.type t.target.type route →
      t.passed.length ≤ route.length)
    (hadj : ¬ g.Adj t.source.type t.target.type)
    (h : LeavesOut g t.source t.target (hops t.source t.route) (some other)) :
    Ambiguity g.Adj t.source.type t.target.type t.types (other.map Reference.type) := by
  obtain ⟨hother, hne⟩ := h.simpleRoute
  obtain ⟨before, hop, after, hsplit, hbefore, havoids, hleast⟩ := h
  have hlength : t.types.length = t.passed.length := by simp [Trail.types, Trail.route]
  refine ⟨hroute, hother, hne.symm, hroute.walk.two_le_length hadj, hother.walk.two_le_length hadj,
    hlength ▸ hshortest, before.map Hop.ends, Hop.ends hop, after.map Hop.ends, ?_, ?_, havoids, ?_⟩
  · rw [Trail.types, ← map_hops, hsplit, List.map_append, List.map_cons]
  · intro h hh
    obtain ⟨k, hk, rfl⟩ := List.mem_map.mp hh
    exact SimpleRoute.not_transGen hroute.ne (hbefore k hk)
  · rw [List.length_map]
    exact hleast

/-- **Exclusions carry their reasons.**  An ambiguous pair is shown with two routes, the first as
short as any, the second as short as any that goes around the earliest hop of the first that can be
gone around.  A foreign pair is shown with its only route. -/
theorem exclusions_witnessed (hrun : (synthesize g d).runWith scope b = (.ok c, b')) :
    ∀ e ∈ c.exclusions,
      (e.reason = .ambiguous → ∃ first second, e.routes = [first, second] ∧
        Ambiguity g.Adj e.source.type e.target.type (first.map Reference.type)
          (second.map Reference.type)) ∧
      (e.reason = .foreign → ∃ route, e.routes = [route] ∧
        OnlyRoute g.Adj e.source.type e.target.type (route.map Reference.type)) := by
  intro e he
  obtain ⟨trails, hfirst, t, ht, hjudged⟩ :=
    (settled_of_runWith hrun).trail_of_shows (.excluded e) (by simp) he
  cases hjudged with
  | @ambiguous other hadj hother =>
      refine ⟨fun _ => ⟨t.route, other, rfl, ?_⟩, nofun⟩
      exact hother.ambiguity (hfirst.isRoute t ht) (hfirst.shortest t ht) hadj
  | foreign _ honly _ =>
      exact ⟨nofun, fun _ => ⟨t.route, rfl, honly⟩⟩

/-! ### Two ways round a circle

From `A` one route leads over `D` to `T`, and a longer one over `C` and `E`.  From `T` an edge leads
back to `A`.
-/

namespace Circle

open Relay (named)

/-- The conversions along both ways, and the one back. -/
def graph : Graph where
  edges := [⟨named "A", named "D", by decide⟩, ⟨named "D", named "T", by decide⟩,
    ⟨named "A", named "C", by decide⟩, ⟨named "C", named "E", by decide⟩,
    ⟨named "E", named "T", by decide⟩, ⟨named "T", named "A", by decide⟩]
  distinct := by decide

/-- Only `T` is declared. -/
def declared : Catalog where
  decls := [{ name := "T" }]
  nodup := by decide

theorem hasTexts : graph.hasTexts = true := by decide

theorem short_way : SimpleRoute graph.Adj (named "A").type (named "T").type
    [(named "D").type, (named "T").type] := ⟨by decide, by decide, rfl⟩

theorem long_way : SimpleRoute graph.Adj (named "A").type (named "T").type
    [(named "C").type, (named "E").type, (named "T").type] := ⟨by decide, by decide, rfl⟩

end Circle

/-- The pair of `A` and `T` is ambiguous, and its first route has two hops. -/
theorem exclusions_witnessed_circle :
    ∃ scope b c b', (synthesize Circle.graph Circle.declared).runWith scope b = (.ok c, b') ∧
      ∃ e ∈ c.exclusions, e.ends = ((Relay.named "A").type, (Relay.named "T").type) ∧
        ∃ first second, e.routes = [first, second] ∧ first.length = 2 ∧
          Ambiguity Circle.graph.Adj (Relay.named "A").type (Relay.named "T").type
            (first.map Reference.type) (second.map Reference.type) := by
  obtain ⟨scope, b, c, b', hrun⟩ := exists_runWith Circle.declared Circle.hasTexts
  obtain ⟨e, he, hends, hreason⟩ := (settled_of_runWith hrun).ambiguous_iff.mpr
    ⟨by decide, _, _, Circle.short_way, Circle.long_way, by decide⟩
  obtain ⟨first, second, hroutes, hambiguity⟩ := (exclusions_witnessed hrun e he).1 hreason
  obtain ⟨hsource, htarget⟩ := Prod.mk.inj hends
  rw [hsource, htarget] at hambiguity
  have hle := hambiguity.shortest _ Circle.short_way.walk
  have hge := hambiguity.two_le_first
  rw [List.length_map] at hle hge
  exact ⟨scope, b, c, b', hrun, e, he, hends, first, second, hroutes, le_antisymm hle hge,
    hambiguity⟩

end Closure

end ConversionClosure
