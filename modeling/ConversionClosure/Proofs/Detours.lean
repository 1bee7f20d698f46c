/-
Second routes.

A detour search is a search of the graph without one edge, and so it finds a target exactly
when a simple route leads there that does not take the forbidden hop.  Searches are kept and
used again; what is kept under a key is a finished search for that key, and that is all the
closure needs to know of them.

`secondRoute` forbids the hops of a first route one after the other.  So by
`SimpleRoute.onlyRoute_iff` it comes back empty exactly when the first route is the only one.

A search is charged when it is run, one tick for every trail that it extends.  Since each search
that is run is kept, and none is run again, the searches that are kept in the end account for all
charges (`Adds`).
-/
import ConversionClosure.Proofs.Shortest

namespace ConversionClosure

namespace Graph

/-- The types that edges join. -/
def nodes (g : Graph) : List TypeId := g.edges.flatMap fun e => [e.source.type, e.target.type]

theorem Adj.mem_nodes {g : Graph} {x y : TypeId} (h : g.Adj x y) :
    x ∈ g.nodes ∧ y ∈ g.nodes := by
  obtain ⟨e, he, hends⟩ := h
  obtain ⟨rfl, rfl⟩ := Prod.mk.inj hends
  simp only [nodes, List.mem_flatMap]
  exact ⟨⟨e, he, by simp⟩, ⟨e, he, by simp⟩⟩

end Graph

namespace Closure

variable {g : Graph} {source target : Reference} {hop : Hop} {search : Search}
  {known : Detours}

/-- The types that a hop joins. -/
def Hop.ends (hop : Hop) : TypeId × TypeId := (hop.1.type, hop.2.type)

theorem detourKey_eq_iff {source' : Reference} {hop' : Hop} :
    detourKey source' hop' = detourKey source hop ↔
      source'.type = source.type ∧ Hop.ends hop' = Hop.ends hop := by
  simp only [detourKey, Hop.ends, Prod.mk.injEq, Reference.elided_eq_iff]

theorem map_hops (source : Reference) (route : List Reference) :
    (hops source route).map Hop.ends = hops source.type (route.map Reference.type) := by
  induction route generalizing source with
  | nil => rfl
  | cons r rest ih =>
      rw [hops, List.map_cons, ih]
      rfl

/-! ### What searches of a graph may take -/

theorem takes_all (g : Graph) : Takes g.successors (fun _ _ => false) g.Adj := by
  refine ⟨?_, ?_⟩
  · intro a r hr _
    exact Graph.adj_type_iff.mpr ⟨r, hr, rfl⟩
  · intro a y hadj
    obtain ⟨r, hr, hy⟩ := Graph.adj_type_iff.mp hadj
    exact ⟨r, hr, rfl, hy⟩

theorem isHop_iff {a b : Reference} : isHop hop a b = true ↔ (a.type, b.type) = Hop.ends hop := by
  simp only [isHop, Bool.and_eq_true, decide_eq_true_eq, Hop.ends, Prod.mk.injEq,
    Reference.type_eq_iff]

theorem takes_without (g : Graph) (hop : Hop) :
    Takes g.successors (isHop hop) (Without g.Adj (Hop.ends hop)) := by
  refine ⟨?_, ?_⟩
  · intro a r hr hgo
    refine ⟨Graph.adj_type_iff.mpr ⟨r, hr, rfl⟩, ?_⟩
    rw [Ne, ← isHop_iff, hgo]
    simp
  · intro a y hwithout
    obtain ⟨hadj, hout⟩ := hwithout
    obtain ⟨r, hr, rfl⟩ := Graph.adj_type_iff.mp hadj
    rw [Ne, ← isHop_iff, Bool.not_eq_true] at hout
    exact ⟨r, hr, hout, rfl⟩

/-! ### Finished searches -/

/-- A finished search for detours: it was run from a source of the same type, with a hop between
the same types forbidden. -/
def IsDetour (g : Graph) (source : Reference) (hop : Hop) (search : Search) : Prop :=
  ∃ source' hop' n, detourKey source' hop' = detourKey source hop ∧
    Iterates (Search.step? g.successors (isHop hop')) { pending := [{ source := source' }] } n
      search

theorem exists_iterates_detour (g : Graph) (source : Reference) (hop : Hop) :
    ∃ n search,
      Iterates (Search.step? g.successors (isHop hop)) { pending := [{ source }] } n search := by
  refine Search.exists_iterates (source.type :: g.nodes) (takes_without g hop) ?_
    (Search.source_walks source) ?_
  · intro x y hadj
    exact List.mem_cons_of_mem _ hadj.1.mem_nodes.2
  · intro t ht
    obtain rfl : t = { source } := by simpa [Search.trails] using ht
    exact ⟨by simp, by simp [Trail.target]⟩

namespace IsDetour

theorem layered (h : IsDetour g source hop search) :
    Search.Layered (Without g.Adj (Hop.ends hop)) search := by
  obtain ⟨source', hop', n, hkey, hiter⟩ := h
  rw [← (detourKey_eq_iff.mp hkey).2]
  exact hiter.keeps (fun s s' => Search.step_layered (takes_without g hop'))
    (Search.source_layered source')

theorem walks (h : IsDetour g source hop search) :
    Search.Walks (Without g.Adj (Hop.ends hop)) search := h.layered.toWalks

theorem pending_eq_nil (h : IsDetour g source hop search) : search.pending = [] := by
  obtain ⟨source', hop', n, -, hiter⟩ := h
  exact Search.step?_eq_none_iff.mp hiter.step_eq_none

/-- Whatever an edge leads to from the source has been found, since the trail that has passed
nothing was extended. -/
theorem found_first (h : IsDetour g source hop search) {y : TypeId}
    (hadj : Without g.Adj (Hop.ends hop) source.type y) (hne : y ≠ source.type) :
    search.Found source.type y := by
  have hclosed := h.walks.closed
  have hdone := h.pending_eq_nil
  obtain ⟨source', hop', n, hkey, hiter⟩ := h
  have hsource : source'.type = source.type := (detourKey_eq_iff.mp hkey).1
  have hstart : ({ source := source' } : Trail) ∈ search.trails :=
    hiter.keeps (I := fun s => { source := source' } ∈ s.trails)
      (fun s s' hstep => Search.step_mem_trails hstep) (by simp [Search.trails])
  have hext : ({ source := source' } : Trail) ∈ search.extended := by
    simpa [Search.trails, hdone] using hstart
  have hfound := hclosed _ hext y
  simp only [Trail.target, List.headD_nil, hsource] at hfound
  exact hfound hadj hne

theorem found_iff (h : IsDetour g source hop search) {y : TypeId} :
    search.Found source.type y ↔
      ∃ route, SimpleRoute (Without g.Adj (Hop.ends hop)) source.type y route := by
  constructor
  · intro hf
    exact h.walks.toHolds.simpleRoute hf
  · intro hreached
    obtain ⟨route, hroute⟩ := hreached
    exact h.walks.found_of_simpleRoute h.pending_eq_nil (fun y => h.found_first) hroute

end IsDetour

/-! ### Routes read from a finished search -/

/-- What `routeIn?` is to give: a simple route that does not take the hop, as short as any walk that
does not, if there is one. -/
def Avoids (g : Graph) (source target : Reference) (hop : Hop) : Option (List Reference) → Prop
  | none => ∀ route, ¬ SimpleRoute (Without g.Adj (Hop.ends hop)) source.type target.type route
  | some route =>
    SimpleRoute (Without g.Adj (Hop.ends hop)) source.type target.type
      (route.map Reference.type) ∧
    ∀ other, Walk (Without g.Adj (Hop.ends hop)) source.type target.type other →
      route.length ≤ other.length

theorem IsDetour.avoids (h : IsDetour g source hop search) (target : Reference) :
    Avoids g source target hop (routeIn? search source target) := by
  have hkey : (source.elided, target.elided) = Trail.key { source, passed := [target] } := rfl
  unfold routeIn?
  rw [hkey]
  cases hfound : search.found[Trail.key { source, passed := [target] }]? with
  | none =>
      intro route hroute
      have hf : search.Found source.type target.type := h.found_iff.mpr ⟨route, hroute⟩
      have hcontains := (h.walks.toHolds.contains_iff (u := { source, passed := [target] })).mpr hf
      rw [Std.HashMap.contains_eq_isSome_getElem?, hfound] at hcontains
      simp at hcontains
  | some t =>
      obtain ⟨hmem, hne, hkey⟩ := h.walks.toHolds.mem_of_found _ t hfound
      have hroute := (h.walks.sound t hmem).resolve_left hne
      obtain ⟨hsource, htarget⟩ := Prod.mk.inj (Trail.key_eq_iff.mp hkey)
      obtain ⟨r, rest, hpassed⟩ := List.exists_cons_of_ne_nil hne
      have hr : r.type = target.type := by
        rw [Trail.target, hpassed] at htarget
        exact htarget
      -- the end of the trail is the target up to lifetimes, and is shown as the target
      have htypes : (target :: t.passed.tail).reverse.map Reference.type = t.types := by
        simp [Trail.types, Trail.route, hpassed, hr]
      have hlength : (target :: t.passed.tail).reverse.length = t.passed.length := by
        simp [hpassed]
      have hshortest := h.layered.shortest t hmem
      show SimpleRoute _ source.type target.type ((target :: t.passed.tail).reverse.map _) ∧
        ∀ other, Walk _ source.type target.type other → _
      unfold Trail.IsRoute at hroute
      rw [hsource, htarget] at hroute hshortest
      rw [htypes, hlength]
      exact ⟨hroute, hshortest⟩

/-! ### Searches that are kept -/

/-- Every search that is kept is a finished search for its key. -/
def Kept (g : Graph) (known : Detours) : Prop :=
  ∀ source hop search, known[detourKey source hop]? = some search → IsDetour g source hop search

theorem kept_empty (g : Graph) : Kept g {} := by
  intro source hop search h
  simp at h

theorem Kept.insert (hk : Kept g known) (h : IsDetour g source hop search) :
    Kept g (known.insert (detourKey source hop) search) := by
  intro source' hop' search' hfound
  rw [Std.HashMap.getElem?_insert] at hfound
  by_cases hkey : detourKey source hop = detourKey source' hop'
  · simp only [hkey, beq_self_eq_true, if_true, Option.some.injEq] at hfound
    subst hfound
    obtain ⟨s, p, n, hsp, hiter⟩ := h
    exact ⟨s, p, n, hsp.trans hkey, hiter⟩
  · simp only [beq_iff_eq, hkey, if_false] at hfound
    exact hk source' hop' search' hfound

/-- How many trails the searches have extended that are kept. -/
def Detours.rounds (known : Detours) : Nat :=
  (known.toList.flatMap fun entry => entry.2.extended).length

theorem rounds_insert {key : Reference × Hop} (h : known[key]? = none) (search : Search) :
    Detours.rounds (known.insert key search) = known.rounds + search.extended.length := by
  have hnew : known.toList.filter (fun entry => decide ¬ (key == entry.1) = true) =
      known.toList := by
    refine List.filter_eq_self.mpr ?_
    intro entry hentry
    rw [decide_eq_true_eq, beq_iff_eq]
    rintro rfl
    rw [Std.HashMap.mem_toList_iff_getElem?_eq_some.mp hentry] at h
    cases h
  have hperm : (known.insert key search).toList.Perm ((key, search) :: known.toList) := by
    rw [← hnew]
    exact Std.HashMap.toList_insert_perm
  rw [Detours.rounds, (hperm.flatMap_right _).length_eq, List.flatMap_cons, List.length_append,
    Nat.add_comm]
  rfl

/-- Searches are added to those that are kept, under some keys at most.  They have `n` rounds. -/
structure Adds (keys : List (Reference × Hop)) (n : Nat) (known known' : Detours) : Prop where
  rounds_eq : known'.rounds = known.rounds + n
  mem_or : ∀ key, key ∈ known' → key ∈ known ∨ key ∈ keys

namespace Adds

variable {keys keys' : List (Reference × Hop)} {n n' : Nat} {known₁ known₂ : Detours}

theorem none (keys : List (Reference × Hop)) (known : Detours) : Adds keys 0 known known :=
  ⟨rfl, fun _ => .inl⟩

theorem trans (h : Adds keys n known known₁) (h' : Adds keys' n' known₁ known₂) :
    Adds (keys ++ keys') (n + n') known known₂ := by
  refine ⟨by rw [h'.rounds_eq, h.rounds_eq, Nat.add_assoc], fun key hkey => ?_⟩
  rcases h'.mem_or key hkey with hkey | hnew
  · exact (h.mem_or key hkey).imp_right (List.mem_append_left keys')
  · exact .inr (List.mem_append_right keys hnew)

theorem mono (h : Adds keys n known known₁) (hsub : keys ⊆ keys') : Adds keys' n known known₁ :=
  ⟨h.rounds_eq, fun key hkey => (h.mem_or key hkey).imp_right fun hnew => hsub hnew⟩

end Adds

/-- A detour search, new or kept, comes to a finished search and leaves finished searches, itself
among them. -/
theorem does_detours (hk : Kept g known) (source : Reference) (hop : Hop) :
    ∃ n search known',
      ((detours g.successors source hop).run known).Does (List.replicate n .search)
          (.ok (search, known')) ∧
        Kept g known' ∧ IsDetour g source hop search ∧
        known'[detourKey source hop]? = some search ∧
        Adds [detourKey source hop] n known known' := by
  cases hfound : known[detourKey source hop]? with
  | some search =>
      refine ⟨0, search, known, ?_, hk, hk source hop search hfound, hfound, .none _ known⟩
      have hrun : (detours g.successors source hop).run known = pure (search, known) := by
        simp only [detours, StateT.run_bind, StateT.run_get, pure_bind, hfound]
        rfl
      rw [hrun]
      exact Metered.Does.pure _
  | none =>
      obtain ⟨n, search, hiter⟩ := exists_iterates_detour g source hop
      have hsearch : IsDetour g source hop search := ⟨source, hop, n, rfl, hiter⟩
      have hrounds : search.extended.length = n := by
        rw [Search.length_extended_of_iterates hiter, List.length_nil, Nat.zero_add]
      refine ⟨n, search, known.insert (detourKey source hop) search, ?_, hk.insert hsearch, hsearch,
        Std.HashMap.getElem?_insert_self, ?_, ?_⟩
      · have hrun : (detours g.successors source hop).run known =
            Search.run .search g.successors (isHop hop) { pending := [{ source }] } >>=
              fun search => pure (search, known.insert (detourKey source hop) search) := by
          simp only [detours, StateT.run_bind, StateT.run_get, pure_bind, hfound,
            Metered.run_liftM, bind_assoc]
          rfl
        rw [hrun, ← List.append_nil (List.replicate n _)]
        exact (hiter.does .search).bind (Metered.Does.pure _)
      · rw [rounds_insert hfound, hrounds]
      · intro key hkey
        rcases Std.HashMap.mem_insert.mp hkey with heq | hkey
        · exact .inr (List.mem_singleton.mpr (eq_of_beq heq).symm)
        · exact .inl hkey

/-- What `secondRoute` is to give: a route around the first of some hops that can be left out, if
any can be. -/
def LeavesOut (g : Graph) (source target : Reference) (hops : List Hop) :
    Option (List Reference) → Prop
  | none => ∀ hop ∈ hops, Avoids g source target hop none
  | some route => ∃ before hop after, hops = before ++ hop :: after ∧
      (∀ h ∈ before, Avoids g source target h none) ∧ Avoids g source target hop (some route)

theorem run_secondRoute_cons (next : Reference → List Reference) (hops : List Hop) :
    (secondRoute next source target (hop :: hops)).run known =
      (detours next source hop).run known >>= fun found =>
        match routeIn? found.1 source target with
        | some route => pure (some route, found.2)
        | none => (secondRoute next source target hops).run found.2 := by
  simp only [secondRoute, routeAvoiding, StateT.run_bind, bind_assoc, pure_bind]
  congr
  funext found
  cases routeIn? found.1 source target with
  | some route => rfl
  | none => rfl

theorem does_secondRoute (hk : Kept g known) (source target : Reference) (hops : List Hop) :
    ∃ n route? known',
      ((secondRoute g.successors source target hops).run known).Does (List.replicate n .search)
          (.ok (route?, known')) ∧
        Kept g known' ∧ LeavesOut g source target hops route? ∧
        Adds (hops.map (detourKey source)) n known known' := by
  induction hops generalizing known with
  | nil => exact ⟨0, none, known, Metered.Does.pure _, hk, by simp [LeavesOut], .none _ known⟩
  | cons hop rest ih =>
      obtain ⟨n, search, known₁, hsearch, hk₁, hdetour, -, hadds⟩ := does_detours hk source hop
      have havoids := hdetour.avoids target
      cases hroute : routeIn? search source target with
      | some route =>
          rw [hroute] at havoids
          refine ⟨n, some route, known₁, ?_, hk₁, ⟨[], hop, rest, rfl, by simp, havoids⟩,
            hadds.mono (by simp)⟩
          rw [run_secondRoute_cons, ← List.append_nil (List.replicate n _)]
          refine hsearch.bind ?_
          simp only [hroute]
          exact Metered.Does.pure _
      | none =>
          rw [hroute] at havoids
          obtain ⟨n', route?, known₂, hrest, hk₂, hleaves, hadds'⟩ := ih hk₁
          refine ⟨n + n', route?, known₂, ?_, hk₂, ?_, hadds.trans hadds'⟩
          · rw [run_secondRoute_cons, List.replicate_add]
            refine hsearch.bind ?_
            simp only [hroute]
            exact hrest
          · cases route? with
            | none =>
                intro h hh
                rcases List.mem_cons.mp hh with rfl | hh
                · exact havoids
                · exact hleaves h hh
            | some route =>
                obtain ⟨before, h, after, rfl, hbefore, hlast⟩ := hleaves
                refine ⟨hop :: before, h, after, rfl, ?_, hlast⟩
                intro k hk
                rcases List.mem_cons.mp hk with rfl | hk
                · exact havoids
                · exact hbefore k hk

end Closure

end ConversionClosure
