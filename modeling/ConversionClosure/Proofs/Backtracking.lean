/-
Routes around an edge.

A detour is asked for by its source, its target and the hop that it is not to take.  The answer is
read from a search for that source and that hop, which is run now or was run for an earlier question.
Whatever was asked before, it is as it should be (`routeAvoiding_exact`): there is one exactly when the
target can still be reached, and then it is a shortest route that does not take the hop.

A search could keep for each type only the one it was found from, its parent.  Then the route would
have to be walked back from the target, from parent to parent up to the source (`LeadsBack`).  Nothing
in a single step says that such a walk ends, or that there always is a parent to go on to.  It does
and there is, because whatever is left of a trail without its last type is the trail of its parent:
going back is to go down the trail of the target.
-/
import ConversionClosure.Proofs.Witnesses

namespace ConversionClosure

namespace Search

variable {s : Search} {source target r p : Reference} {nodes route route' : List Reference}
  {adj : TypeId → TypeId → Prop}

/-- The type from which another one was found, if it was found. -/
def parent? (s : Search) (source r : Reference) : Option Reference :=
  s.found[(source.elided, r.elided)]?.map fun t => t.passed.tail.headD t.source

/-- The walk back from the first of some types, which puts one parent after the other in front of
them, until a parent is the source. -/
inductive LeadsBack (s : Search) (source : Reference) : List Reference → List Reference → Prop
  | stop {r p : Reference} {nodes : List Reference} (hparent : s.parent? source r = some p)
      (h : p ≈ source) : LeadsBack s source (r :: nodes) (r :: nodes)
  | more {r p : Reference} {nodes route : List Reference} (hparent : s.parent? source r = some p)
      (h : ¬ p ≈ source) (rest : LeadsBack s source (p :: r :: nodes) route) :
      LeadsBack s source (r :: nodes) route

/-- A walk back has one end at most. -/
theorem LeadsBack.unique (h : s.LeadsBack source nodes route)
    (h' : s.LeadsBack source nodes route') : route = route' := by
  induction h with
  | stop hparent h =>
      cases h' with
      | stop _ _ => rfl
      | more hparent' h' _ =>
          obtain rfl := Option.some.inj (hparent.symm.trans hparent')
          exact absurd h h'
  | more hparent h _ ih =>
      cases h' with
      | stop hparent' h' =>
          obtain rfl := Option.some.inj (hparent.symm.trans hparent')
          exact absurd h' h
      | more hparent' _ rest' =>
          obtain rfl := Option.some.inj (hparent.symm.trans hparent')
          exact ih rest'

/-- The parent of the type that a trail ends in is the one before it on the trail, the source if there
is no other. -/
theorem Holds.parent?_eq (h : Holds adj s) {t : Trail} (ht : t ∈ s.trails) (hne : t.passed ≠ [])
    (hends : t.ends = (source.type, r.type)) :
    s.parent? source r = some (t.passed.tail.headD t.source) := by
  have hkey : t.key = (source.elided, r.elided) :=
    Trail.key_eq_iff (u := { source, passed := [r] }).mpr hends
  rw [parent?, ← hkey, h.found_of_mem t ht hne, Option.map_some]

/-- **The walk back from the end of a trail goes down the trail.**  The induction takes the last type
off the trail, and what is left is a trail of its own. -/
theorem Layered.leadsBack (h : Layered adj s) {start : Reference} {rest : List Reference}
    (ht : { source := start, passed := p :: rest } ∈ s.trails) (hstart : start.type = source.type)
    (hr : p.type = r.type) (nodes : List Reference) :
    s.LeadsBack source (r :: nodes) (rest.reverse ++ r :: nodes) := by
  have hparent := h.toHolds.parent?_eq ht (List.cons_ne_nil p rest) (Prod.ext hstart hr)
  induction rest generalizing p r nodes with
  | nil => exact .stop hparent (Reference.type_eq_iff.mp hstart)
  | cons q rest ih =>
      have hq := h.mem_of_cons ht (List.cons_ne_nil q rest)
      have hroute := (h.sound _ hq).resolve_left (List.cons_ne_nil q rest)
      have hsource : ¬ q ≈ source := fun heq =>
        hroute.ne (hstart.trans (Reference.type_eq_iff.mpr heq).symm)
      refine .more hparent hsource ?_
      rw [List.reverse_cons, List.append_assoc]
      exact ih hq rfl (r :: nodes)
        (h.toHolds.parent?_eq hq (List.cons_ne_nil q rest) (Prod.ext hstart rfl))

end Search

namespace Closure

variable {g : Graph} {source target : Reference} {hop : Hop} {search : Search} {known known' : Detours}
  {answer : Option (List Reference)} {route : List Reference} {scope : Scope} {b b' : Budget}

/-- **The route read from a finished search is what the walk back leads to**, and there is no walk back
from a type that was not found. -/
theorem IsDetour.routeIn?_eq_some_iff (h : IsDetour g source hop search) :
    routeIn? search source target = some route ↔ search.LeadsBack source [target] route := by
  have hback : ∀ route, routeIn? search source target = some route →
      search.LeadsBack source [target] route := by
    intro route hroute
    obtain ⟨⟨start, passed⟩, hfound, rfl⟩ := Option.map_eq_some_iff.mp hroute
    obtain ⟨hmem, hne, hkey⟩ := h.walks.toHolds.mem_of_found _ _ hfound
    obtain ⟨r, rest, rfl⟩ := List.exists_cons_of_ne_nil hne
    obtain ⟨hstart, hr⟩ := Prod.mk.inj
      (Trail.key_eq_iff (u := { source, passed := [target] }).mp hkey)
    rw [List.tail_cons, List.reverse_cons]
    exact h.layered.leadsBack hmem hstart hr []
  refine ⟨hback route, fun hwalk => ?_⟩
  cases hanswer : routeIn? search source target with
  | some other => rw [(hback other hanswer).unique hwalk]
  | none =>
      have hparent : search.parent? source target = none := by
        rw [Search.parent?, Option.map_eq_none_iff.mp hanswer, Option.map_none]
      cases hwalk with
      | stop hsome _ | more hsome _ _ =>
          rw [hparent] at hsome
          cases hsome

/-! ### Questions one after the other -/

/-- The searches that may be kept when a question is asked: none at first, and those that are kept
after another question. -/
inductive Asked (g : Graph) : Detours → Prop
  | none : Asked g {}
  | after {known known' : Detours} {source target : Reference} {hop : Hop}
      {answer : Option (List Reference)} {scope : Scope} {b b' : Budget} (h : Asked g known)
      (hrun : ((routeAvoiding g.table.successors source target hop).run known).runWith scope b =
        (.ok (answer, known'), b')) : Asked g known'

/-- A question is answered from a finished search, which is kept from then on.  Only finished searches
are kept. -/
theorem does_routeAvoiding (hk : Kept g known) (source target : Reference) (hop : Hop) :
    ∃ n search known', ((routeAvoiding g.successors source target hop).run known).Does
        (List.replicate n .search) (.ok (routeIn? search source target, known')) ∧
      Kept g known' ∧ IsDetour g source hop search ∧
      known'[detourKey source hop]? = some search := by
  obtain ⟨n, search, known', hsearch, hk', hdetour, hfound, -⟩ := does_detours hk source hop
  refine ⟨n, search, known', ?_, hk', hdetour, hfound⟩
  rw [routeAvoiding, StateT.run_bind, ← List.append_nil (List.replicate n _)]
  exact hsearch.bind (Metered.Does.pure _)

theorem Asked.kept (h : Asked g known) : Kept g known := by
  induction h with
  | none => exact kept_empty g
  | @after _ _ source target hop _ _ _ _ _ hrun ih =>
      obtain ⟨n, search, known', hdoes, hk, -⟩ := does_routeAvoiding ih source target hop
      rw [Graph.successors_table] at hrun
      cases hdoes.eq_of_runWith hrun
      exact hk

/-- A shortest route around a hop. -/
structure GoesAround (g : Graph) (source target : Reference) (hop : Hop) (route : List Reference) :
    Prop where
  simple : SimpleRoute g.Adj source.type target.type (route.map Reference.type)
  avoids : Hop.ends hop ∉ hops source.type (route.map Reference.type)
  leaves : source.type ∉ route.map Reference.type
  /-- Not even a walk that comes back to types it has passed is shorter, if it does not take the hop. -/
  shortest : ∀ other, Walk (Without g.Adj (Hop.ends hop)) source.type target.type other →
    route.length ≤ other.length

theorem Avoids.goesAround (h : Avoids g source target hop (some route)) :
    GoesAround g source target hop route := by
  obtain ⟨hroute, hshortest⟩ := h
  obtain ⟨hsimple, havoids⟩ := SimpleRoute.without_iff.mp hroute
  exact ⟨hsimple, havoids, (List.nodup_cons.mp hsimple.nodup).1, hshortest⟩

/-- No route is read exactly when the target is out of reach. -/
theorem Avoids.eq_none_iff (h : Avoids g source target hop answer) (hne : ¬ source ≈ target) :
    answer = none ↔
      ¬ Relation.ReflTransGen (Without g.Adj (Hop.ends hop)) source.type target.type := by
  cases answer with
  | none =>
      refine iff_of_true rfl fun hreach => ?_
      obtain ⟨route, hroute⟩ := SimpleRoute.exists_of_reflTransGen hreach
        (mt Reference.type_eq_iff.mp hne)
      exact h route hroute
  | some route =>
      have hreach := h.1.transGen.to_reflTransGen
      exact iff_of_false (by simp) (not_not_intro hreach)

/-- **Detours are searched for correctly, whatever was asked for before.**  A question comes to an end,
the search and the walk back along the parents alike.  It is answered with no route exactly when the
target cannot be reached without the hop, and otherwise with a shortest route around it. -/
theorem routeAvoiding_exact (hasked : Asked g known) (hne : ¬ source ≈ target) (hop : Hop) :
    ∃ n answer known' search,
      ((routeAvoiding g.table.successors source target hop).run known).Does
        (List.replicate n .search) (.ok (answer, known')) ∧
      known'[detourKey source hop]? = some search ∧
      (∀ route, answer = some route ↔ search.LeadsBack source [target] route) ∧
      (answer = none ↔
        ¬ Relation.ReflTransGen (Without g.Adj (Hop.ends hop)) source.type target.type) ∧
      ∀ route, answer = some route → GoesAround g source target hop route := by
  obtain ⟨n, search, known', hdoes, -, hdetour, hfound⟩ :=
    does_routeAvoiding hasked.kept source target hop
  have havoids := hdetour.avoids target
  rw [Graph.successors_table]
  refine ⟨n, routeIn? search source target, known', search, hdoes, hfound, ?_, ?_, ?_⟩
  · intro route
    exact hdetour.routeIn?_eq_some_iff
  · exact havoids.eq_none_iff hne
  · intro route hroute
    exact (hroute ▸ havoids : Avoids g source target hop (some route)).goesAround

/-! ### The circle again

Without the hop from `A` to `D` no type of the circle has more than one successor.
-/

namespace Circle

open Relay (named)

/-- The hop that is not taken. -/
def shortcut : Hop := (named "A", named "D")

theorem without_rightUnique : Relator.RightUnique (Without graph.Adj (Hop.ends shortcut)) := by
  rintro x y z ⟨⟨e, he, hy⟩, hey⟩ ⟨⟨f, hf, hz⟩, hfz⟩
  have hall : ∀ e ∈ graph.edges, ∀ f ∈ graph.edges, e.ends ≠ Hop.ends shortcut →
      f.ends ≠ Hop.ends shortcut → f.source.type = e.source.type →
      e.target.type = f.target.type := by decide
  rw [← hy] at hey
  rw [← hz] at hfz
  obtain ⟨rfl, rfl⟩ := Prod.mk.inj hy
  obtain ⟨hsource, rfl⟩ := Prod.mk.inj hz
  exact hall e he f hf hey hfz hsource

theorem around : SimpleRoute (Without graph.Adj (Hop.ends shortcut)) (named "A").type
    (named "T").type [(named "C").type, (named "E").type, (named "T").type] :=
  SimpleRoute.without_iff.mpr ⟨long_way, by decide⟩

end Circle

/-- `D` is out of reach without the hop to it.  The search that tells so is kept, and from it the way
over `C` and `E` to `T` is read afterwards. -/
theorem routeAvoiding_exact_circle :
    ∃ known, Asked Circle.graph known ∧
      (∃ search, known[detourKey (Relay.named "A") Circle.shortcut]? = some search) ∧
      ∃ n answer known', ((routeAvoiding Circle.graph.table.successors (Relay.named "A")
          (Relay.named "T") Circle.shortcut).run known).Does (List.replicate n .search)
          (.ok (answer, known')) ∧
        answer.map (·.map Reference.type) = some [(Relay.named "C").type, (Relay.named "E").type,
          (Relay.named "T").type] := by
  have htoD : ¬ Relay.named "A" ≈ Relay.named "D" := by decide
  have htoT : ¬ Relay.named "A" ≈ Relay.named "T" := by decide
  obtain ⟨n, answer, known, search, hdoes, hkept, -⟩ :=
    routeAvoiding_exact (Asked.none (g := Circle.graph)) htoD Circle.shortcut
  obtain ⟨b, hrun⟩ := hdoes.completes_unhurried .closure _ (Nat.lt_succ_self _)
  have hasked : Asked Circle.graph known := Asked.none.after hrun
  refine ⟨known, hasked, ⟨search, hkept⟩, ?_⟩
  obtain ⟨n, answer, known', -, hdoes, -, -, hnone, hroute⟩ :=
    routeAvoiding_exact hasked htoT Circle.shortcut
  refine ⟨n, answer, known', hdoes, ?_⟩
  cases answer with
  | none => exact absurd Circle.around.transGen.to_reflTransGen (hnone.mp rfl)
  | some route =>
      obtain ⟨hsimple, havoids, -⟩ := hroute route rfl
      have honly := Circle.around.onlyRoute_of_rightUnique Circle.without_rightUnique
      exact congrArg some (honly.only _ (SimpleRoute.without_iff.mpr ⟨hsimple, havoids⟩))

end Closure

end ConversionClosure
