/-
What becomes of the pairs of a graph.

`saturate` finds one trail for every pair of types that a simple route connects, and `judge`
says of each trail what there is to say of its pair.  That is all that the rest needs to know
of a run: `Settled` ties a closure to trails and verdicts, and every completed run is settled.

From there on only types matter.  A pair that no edge joins is synthesized, ambiguous or
foreign by what its simple routes are and by whether its target is declared.
-/
import ConversionClosure.Proofs.Detours
import Mathlib.Data.List.Forall2

namespace ConversionClosure

namespace Closure

variable {g : Graph} {d : Catalog} {c : Closure} {t : Trail} {known : Detours}
  {scope : Scope} {b b' : Budget} {x y v : TypeId}

/-! ### First trails -/

/-- One trail for every pair of types that a simple route connects, and such a route itself.  It is
made of references that the graph has, no walk is shorter, and each part of it that starts in its
source is a first trail as well. -/
structure FirstTrails (g : Graph) (trails : List Trail) : Prop where
  madeOf : ∀ t ∈ trails, t.source ∈ g.references ∧ ∀ r ∈ t.passed, r ∈ g.references
  isRoute : ∀ t ∈ trails, t.IsRoute g.Adj
  complete : ∀ x y route, SimpleRoute g.Adj x y route → ∃ t ∈ trails, t.ends = (x, y)
  nodup : (trails.map Trail.ends).Nodup
  shortest : ∀ t ∈ trails, ∀ route, Walk g.Adj t.source.type t.target.type route →
    t.passed.length ≤ route.length
  closed : ∀ source r rest, { source, passed := r :: rest } ∈ trails → rest ≠ [] →
    { source, passed := rest } ∈ trails

/-- The trails along single edges. -/
def edgeTrails (g : Graph) : List Trail :=
  g.sortedEdges.map fun e => { source := e.source, passed := [e.target] }

theorem mem_edgeTrails : t ∈ edgeTrails g ↔
    ∃ e ∈ g.edges, { source := e.source, passed := [e.target] } = t := by
  simp only [edgeTrails, Graph.sortedEdges, List.mem_map, mem_sortBy]

theorem edgeTrails_fits {s : Search} : ∀ t ∈ edgeTrails g, Search.Fits g.Adj s t := by
  intro t ht
  obtain ⟨e, he, rfl⟩ := mem_edgeTrails.mp ht
  have hadj : g.Adj e.source.type e.target.type := ⟨e, he, rfl⟩
  exact Search.fits_single hadj hadj.ne

theorem edgeTrails_walks (g : Graph) :
    Search.Walks g.Adj ((edgeTrails g).foldl Search.push {}) := by
  refine ⟨Search.foldl_holds Search.empty_walks.toHolds edgeTrails_fits, ?_⟩
  intro t ht
  rw [Search.extended_foldl] at ht
  simp at ht

theorem found_edgeTrails (hadj : g.Adj x y) :
    ((edgeTrails g).foldl Search.push {}).Found x y := by
  obtain ⟨e, he, hends⟩ := hadj
  obtain ⟨rfl, rfl⟩ := Prod.mk.inj hends
  exact Search.found_foldl Search.empty_walks.toHolds edgeTrails_fits
    (mem_edgeTrails.mpr ⟨e, he, rfl⟩)

theorem mem_of_mem_start (ht : t ∈ ((edgeTrails g).foldl Search.push {}).trails) :
    ∃ e ∈ g.edges, { source := e.source, passed := [e.target] } = t := by
  rcases Search.mem_trails_of_foldl ht with ht | ht
  · simp [Search.trails] at ht
  · exact mem_edgeTrails.mp ht

theorem edgeTrails_layered (g : Graph) :
    Search.Layered g.Adj ((edgeTrails g).foldl Search.push {}) := by
  have hone : ∀ t ∈ ((edgeTrails g).foldl Search.push {}).trails, t.passed.length = 1 := by
    intro t ht
    obtain ⟨e, -, rfl⟩ := mem_of_mem_start ht
    rfl
  refine ⟨edgeTrails_walks g, ?_, ?_, ?_, ?_⟩
  · intro t _ _ y hadj _
    exact found_edgeTrails hadj
  · intro t ht
    exact .inl (hone t ht).le
  · refine List.pairwise_of_forall_mem_list ?_
    intro t ht u hu _
    rw [hone t ht, hone u hu]
  · intro t ht route hroute
    rw [hone t ht]
    exact hroute.length_pos

theorem edgeTrails_within (g : Graph) :
    Search.Within g.nodes ((edgeTrails g).foldl Search.push {}) := by
  intro t ht
  obtain ⟨e, he, rfl⟩ := mem_of_mem_start ht
  exact Graph.Adj.mem_nodes ⟨e, he, rfl⟩

theorem edgeTrails_madeOf (g : Graph) :
    Search.MadeOf g.references ((edgeTrails g).foldl Search.push {}) := by
  intro t ht
  obtain ⟨e, he, rfl⟩ := mem_of_mem_start ht
  have hends := Graph.mem_references he
  exact ⟨hends.1, by simpa using hends.2⟩

/-- No trail of the search from all edges has passed nothing. -/
theorem step_passed {next : Reference → List Reference}
    {forbidden : Reference → Reference → Bool} {s s' : Search}
    (hstep : Search.step? next forbidden s = some s') (h : ∀ t ∈ s.trails, t.passed ≠ []) :
    ∀ t ∈ s'.trails, t.passed ≠ [] :=
  Search.step_forall hstep (fun t _ r _ _ => List.cons_ne_nil r t.passed) h

theorem edgeTrails_passed (g : Graph) :
    ∀ t ∈ ((edgeTrails g).foldl Search.push {}).trails, t.passed ≠ [] := by
  intro t ht
  obtain ⟨e, -, rfl⟩ := mem_of_mem_start ht
  simp

/-- Saturation makes one charge for each first trail. -/
theorem does_saturate (g : Graph) :
    ∃ trails, (saturate g.successors g.sortedEdges).Does (List.replicate trails.length .saturate)
        (.ok trails) ∧
      FirstTrails g trails := by
  have hT := takes_all g
  obtain ⟨n, final, hiter⟩ := Search.exists_iterates g.nodes hT
    (fun x y hadj => hadj.mem_nodes.2) (edgeTrails_walks g) (edgeTrails_within g)
  have hlayered : Search.Layered g.Adj final :=
    hiter.keeps (fun s s' => Search.step_layered hT) (edgeTrails_layered g)
  have hpassed : ∀ t ∈ final.trails, t.passed ≠ [] :=
    hiter.keeps (I := fun s => ∀ t ∈ s.trails, t.passed ≠ []) (fun s s' => step_passed)
      (edgeTrails_passed g)
  have hfirst : ∀ x y, g.Adj x y → final.Found x y := by
    intro x y hadj
    refine hiter.keeps (I := fun s => s.Found x y) ?_ (found_edgeTrails hadj)
    intro s s' hstep hfound
    obtain ⟨t, ht, hrest⟩ := hfound
    exact ⟨t, Search.step_mem_trails hstep ht, hrest⟩
  have hmadeOf : Search.MadeOf g.references final :=
    hiter.keeps (fun s s' => Search.step_madeOf fun a r => Graph.mem_references_of_successors)
      (edgeTrails_madeOf g)
  have hlength : final.trails.length = n :=
    Search.length_trails_of_iterates hiter (Search.extended_foldl _ _)
  refine ⟨final.trails, ?_, hmadeOf, ?_, ?_, hlayered.nodup, hlayered.shortest,
    fun source r rest => hlayered.mem_of_cons⟩
  · rw [hlength, ← List.append_nil (List.replicate n _)]
    exact (hiter.does .saturate).bind (Metered.Does.pure _)
  · intro t ht
    exact (hlayered.sound t ht).resolve_left (hpassed t ht)
  · intro x y route hroute
    obtain ⟨t, ht, -, hends⟩ := hlayered.toWalks.found_of_simpleRoute
      (Search.step?_eq_none_iff.mp hiter.step_eq_none) (fun y hadj _ => hfirst x y hadj) hroute
    exact ⟨t, ht, hends⟩

/-! ### One pair -/

/-- What there is to say of the pair of a first trail. -/
inductive Judged (g : Graph) (d : Catalog) (t : Trail) : Verdict → Prop
  | direct (hadj : g.Adj t.source.type t.target.type) : Judged g d t .direct
  | ambiguous {other : List Reference} (hadj : ¬ g.Adj t.source.type t.target.type)
      (hother : LeavesOut g t.source t.target (hops t.source t.route) (some other)) :
      Judged g d t (.excluded ⟨t.source, t.target, .ambiguous, [t.route, other]⟩)
  | foreign (hadj : ¬ g.Adj t.source.type t.target.type)
      (honly : OnlyRoute g.Adj t.source.type t.target.type t.types)
      (hforeign : ¬ d.Declares t.target.type) :
      Judged g d t (.excluded ⟨t.source, t.target, .foreign, [t.route]⟩)
  | synthesized (hadj : ¬ g.Adj t.source.type t.target.type)
      (honly : OnlyRoute g.Adj t.source.type t.target.type t.types)
      (hdeclared : d.Declares t.target.type) :
      Judged g d t (.synthesized ⟨t.source, t.target, t.passed.tail.headD t.source⟩)

/-- The hops of a trail, as hops between types. -/
theorem mem_hops_types {hop : TypeId × TypeId} :
    hop ∈ hops t.source.type t.types ↔ ∃ h ∈ hops t.source t.route, Hop.ends h = hop := by
  rw [Trail.types, ← map_hops, List.mem_map]

theorem LeavesOut.onlyRoute (hroute : t.IsRoute g.Adj)
    (h : LeavesOut g t.source t.target (hops t.source t.route) none) :
    OnlyRoute g.Adj t.source.type t.target.type t.types := by
  refine hroute.onlyRoute_iff.mpr ?_
  intro hop hhop
  obtain ⟨p, hp, rfl⟩ := mem_hops_types.mp hhop
  exact h p hp

/-- A route that leaves out a hop of a trail is another one. -/
theorem LeavesOut.simpleRoute {other : List Reference}
    (h : LeavesOut g t.source t.target (hops t.source t.route) (some other)) :
    SimpleRoute g.Adj t.source.type t.target.type (other.map Reference.type) ∧
      other.map Reference.type ≠ t.types := by
  obtain ⟨before, hop, after, hsplit, -, havoids⟩ := h
  obtain ⟨hother, hout⟩ := SimpleRoute.without_iff.mp havoids.1
  refine ⟨hother, ?_⟩
  intro heq
  rw [heq] at hout
  exact hout (mem_hops_types.mpr ⟨hop, by simp [hsplit], rfl⟩)

theorem LeavesOut.not_onlyRoute {other : List Reference} {route : List TypeId}
    (h : LeavesOut g t.source t.target (hops t.source t.route) (some other))
    (hroute : t.IsRoute g.Adj) : ¬ OnlyRoute g.Adj t.source.type t.target.type route := by
  intro honly
  obtain ⟨hother, hne⟩ := h.simpleRoute
  exact hne (honly.eq_of_simple hother hroute)

/-- The verdict on a pair that no edge joins, once its second route is known. -/
def verdictOn (d : Catalog) (t : Trail) : Option (List Reference) → Verdict
  | some other => .excluded ⟨t.source, t.target, .ambiguous, [t.route, other]⟩
  | none =>
    if d.contains t.target then .synthesized ⟨t.source, t.target, t.passed.tail.headD t.source⟩
    else .excluded ⟨t.source, t.target, .foreign, [t.route]⟩

theorem judged_verdictOn (hroute : t.IsRoute g.Adj) (hadj : ¬ g.Adj t.source.type t.target.type)
    {route? : Option (List Reference)}
    (h : LeavesOut g t.source t.target (hops t.source t.route) route?) :
    Judged g d t (verdictOn d t route?) := by
  cases route? with
  | some other => exact .ambiguous hadj h
  | none =>
      have honly := h.onlyRoute hroute
      rw [verdictOn]
      by_cases hd : d.contains t.target
      · rw [if_pos hd]
        exact .synthesized hadj honly (Catalog.contains_iff.mp hd)
      · rw [if_neg hd]
        exact .foreign hadj honly fun h => hd (Catalog.contains_iff.mpr h)

theorem run_judge_of_adj (hadj : g.Adj t.source.type t.target.type) :
    (judge g.successors d.contains t).run known =
      Metered.tick .synthesize >>= fun _ => pure (.direct, known) := by
  simp only [judge, Graph.any_successors_iff.mpr hadj, StateT.run_bind, Metered.run_liftM,
    bind_assoc, pure_bind, if_true]
  rfl

theorem run_judge_of_not_adj (hadj : ¬ g.Adj t.source.type t.target.type) :
    (judge g.successors d.contains t).run known =
      Metered.tick .synthesize >>= fun _ =>
        (secondRoute g.successors t.source t.target (hops t.source t.route)).run known >>=
          fun found => pure (verdictOn d t found.1, found.2) := by
  have hany : ((g.successors t.source).any fun r => r ≈ t.target) = false := by
    rw [← Bool.not_eq_true, Graph.any_successors_iff]
    exact hadj
  simp only [judge, hany, StateT.run_bind, Metered.run_liftM, bind_assoc, pure_bind,
    Bool.false_eq_true, if_false]
  congr
  funext _
  congr
  funext found
  rcases found with ⟨_ | other, known⟩
  · by_cases hd : d.contains t.target
    · simp only [hd, verdictOn, if_true]
      rfl
    · simp only [hd, verdictOn]
      rfl
  · rfl

/-- What the searches for a second route beside a trail are kept under. -/
def detourKeys (t : Trail) : List (Reference × Hop) :=
  (hops t.source t.route).map (detourKey t.source)

theorem does_judge (d : Catalog) (hk : Kept g known) (hroute : t.IsRoute g.Adj) :
    ∃ n verdict known',
      ((judge g.successors d.contains t).run known).Does (.synthesize :: List.replicate n .search)
          (.ok (verdict, known')) ∧
        Kept g known' ∧ Judged g d t verdict ∧ Adds (detourKeys t) n known known' := by
  by_cases hadj : g.Adj t.source.type t.target.type
  · refine ⟨0, .direct, known, ?_, hk, .direct hadj, .none _ known⟩
    rw [run_judge_of_adj hadj]
    exact (Metered.Does.tick _).bind (Metered.Does.pure _)
  · obtain ⟨n, route?, known', hsecond, hk', hleaves, hadds⟩ :=
      does_secondRoute hk t.source t.target (hops t.source t.route)
    refine ⟨n, verdictOn d t route?, known', ?_, hk', judged_verdictOn hroute hadj hleaves, hadds⟩
    rw [run_judge_of_not_adj hadj, ← List.append_nil (List.replicate n _)]
    exact (Metered.Does.tick _).bind (hsecond.bind (Metered.Does.pure _))

/-! ### All pairs -/

/-- Every trail gets its verdict, with one charge for the trail itself.  The searches that are kept
grow from one pair to the next. -/
theorem does_mapM_judge (d : Catalog) {trails : List Trail} (hk : Kept g known)
    (hroutes : ∀ t ∈ trails, t.IsRoute g.Adj) :
    ∃ n sites verdicts known',
      ((trails.mapM (judge g.successors d.contains)).run known).Does sites
          (.ok (verdicts, known')) ∧
        List.Forall₂ (Judged g d) trails verdicts ∧ Kept g known' ∧
        Adds (trails.flatMap detourKeys) n known known' ∧
        sites.Perm (List.replicate trails.length .synthesize ++ List.replicate n .search) := by
  induction trails generalizing known with
  | nil => exact ⟨0, [], [], known, Metered.Does.pure _, .nil, hk, .none _ known, .refl _⟩
  | cons t rest ih =>
      obtain ⟨n, verdict, known₁, hjudge, hk₁, hjudged, hadds⟩ :=
        does_judge d hk (hroutes t (by simp))
      obtain ⟨n', sites, verdicts, known₂, hrest, hall, hk₂, hadds', hperm⟩ :=
        ih hk₁ fun u hu => hroutes u (by simp [hu])
      refine ⟨n + n', .synthesize :: List.replicate n .search ++ (sites ++ []),
        verdict :: verdicts, known₂, ?_, .cons hjudged hall, hk₂, hadds.trans hadds', ?_⟩
      · simp only [List.mapM_cons, StateT.run_bind]
        exact hjudge.bind (hrest.bind (Metered.Does.pure _))
      · rw [List.append_nil, List.cons_append, List.length_cons, List.replicate_succ,
          List.cons_append, List.replicate_add]
        refine .cons _ ((hperm.append_left _).trans ?_)
        rw [← List.append_assoc, ← List.append_assoc]
        exact List.perm_append_comm.append_right _

/-- The closure that some verdicts make. -/
def ofVerdicts (verdicts : List Verdict) : Closure where
  edges := sortBy Synthesized.key (verdicts.filterMap Verdict.edge?)
  exclusions := sortBy Exclusion.key (verdicts.filterMap Verdict.exclusion?)

/-- A closure is settled when verdicts on first trails make it. -/
def Settled (g : Graph) (d : Catalog) (c : Closure) : Prop :=
  ∃ trails verdicts, FirstTrails g trails ∧ List.Forall₂ (Judged g d) trails verdicts ∧
    ofVerdicts verdicts = c

theorem synthesize_of_hasTexts (h : g.hasTexts = true) :
    synthesize g d = verdicts g.successors g.sortedEdges d.contains >>= fun vs =>
      pure (ofVerdicts vs) := by
  simp only [synthesize, h, Graph.successors_table, if_true]
  rfl

theorem synthesize_of_not_hasTexts (h : g.hasTexts = false) :
    synthesize g d = throw .incompleteReference := by
  simp only [synthesize, h]
  rfl

/-- **On a graph whose types all have texts, the closure comes to an end**: it saturates, and then
it judges each first trail. -/
theorem does_synthesize_of_saturate (d : Catalog) (h : g.hasTexts = true) :
    ∃ n trails sites verdicts known,
      (saturate g.successors g.sortedEdges).Does (List.replicate trails.length .saturate)
          (.ok trails) ∧
        ((trails.mapM (judge g.successors d.contains)).run {}).Does sites
          (.ok (verdicts, known)) ∧
        (synthesize g d).Does (List.replicate trails.length .saturate ++ sites)
          (.ok (ofVerdicts verdicts)) ∧
        FirstTrails g trails ∧ List.Forall₂ (Judged g d) trails verdicts ∧ Kept g known ∧
        Adds (trails.flatMap detourKeys) n {} known ∧
        sites.Perm (List.replicate trails.length .synthesize ++ List.replicate n .search) := by
  obtain ⟨trails, hsaturate, hfirst⟩ := does_saturate g
  obtain ⟨n, sites, vs, known, hmap, hall, hk, hadds, hperm⟩ :=
    does_mapM_judge d (kept_empty g) hfirst.isRoute
  refine ⟨n, trails, sites, vs, known, hsaturate, hmap, ?_, hfirst, hall, hk, hadds, hperm⟩
  rw [synthesize_of_hasTexts h, ← List.append_nil (_ ++ sites), ← List.append_nil sites]
  have hverdicts : (verdicts g.successors g.sortedEdges d.contains).Does
      (List.replicate trails.length .saturate ++ (sites ++ [])) (.ok vs) :=
    hsaturate.bind (hmap.bind (Metered.Does.pure _))
  exact hverdicts.bind (Metered.Does.pure _)

/-- What it comes to is settled. -/
theorem does_synthesize (d : Catalog) (h : g.hasTexts = true) :
    ∃ sites c, (synthesize g d).Does sites (.ok c) ∧ Settled g d c := by
  obtain ⟨n, trails, sites, vs, known, -, -, hdoes, hfirst, hall, -⟩ :=
    does_synthesize_of_saturate d h
  exact ⟨_, _, hdoes, trails, vs, hfirst, hall, rfl⟩

theorem hasTexts_of_runWith (hrun : (synthesize g d).runWith scope b = (.ok c, b')) :
    g.hasTexts = true := by
  by_contra h
  rw [Bool.not_eq_true] at h
  rw [synthesize_of_not_hasTexts h] at hrun
  simpa using (Metered.Does.throw _).eq_of_runWith hrun

/-- Where so many ticks are allowed, the closure comes to its end, and there is only one closure
that it can come to. -/
theorem exists_completes (d : Catalog) (h : g.hasTexts = true) :
    ∃ c n, Settled g d c ∧
      (∀ (scope : Scope) (b : Budget), scope.timer.Allows b.limit b.total (b.total + n) →
        ∃ b', (synthesize g d).runWith scope b = (.ok c, b')) ∧
      ∀ scope b c' b', (synthesize g d).runWith scope b = (.ok c', b') → c' = c := by
  obtain ⟨sites, c, hdoes, hsettled⟩ := does_synthesize d h
  refine ⟨c, sites.length, hsettled, ?_, ?_⟩
  · intro scope b hallows
    exact hdoes.completes hallows
  · intro scope b c' b' hrun
    exact (Except.ok.inj (hdoes.eq_of_runWith hrun)).symm

theorem exists_runWith (d : Catalog) (h : g.hasTexts = true) :
    ∃ (scope : Scope) (b : Budget) (c : Closure) (b' : Budget),
      (synthesize g d).runWith scope b = (.ok c, b') := by
  obtain ⟨sites, c, hdoes, -⟩ := does_synthesize d h
  obtain ⟨b', hrun⟩ := hdoes.completes_unhurried .closure _ (Nat.lt_succ_self _)
  exact ⟨_, _, c, b', hrun⟩

/-- **Whatever a completed run gives is settled.** -/
theorem settled_of_runWith (hrun : (synthesize g d).runWith scope b = (.ok c, b')) :
    Settled g d c := by
  obtain ⟨sites, c', hdoes, hsettled⟩ := does_synthesize d (hasTexts_of_runWith hrun)
  obtain rfl : c' = c := Except.ok.inj (hdoes.eq_of_runWith hrun)
  exact hsettled

/-! ### What a settled closure says of a pair -/

theorem Verdict.edge?_eq_some {verdict : Verdict} {e : Synthesized} :
    verdict.edge? = some e ↔ verdict = .synthesized e := by
  cases verdict with
  | direct => simp [Verdict.edge?]
  | synthesized e' => simp [Verdict.edge?]
  | excluded e' => simp [Verdict.edge?]

theorem Verdict.exclusion?_eq_some {verdict : Verdict} {e : Exclusion} :
    verdict.exclusion? = some e ↔ verdict = .excluded e := by
  cases verdict with
  | direct => simp [Verdict.exclusion?]
  | synthesized e' => simp [Verdict.exclusion?]
  | excluded e' => simp [Verdict.exclusion?]

theorem mem_edges_ofVerdicts {vs : List Verdict} {e : Synthesized} :
    e ∈ (ofVerdicts vs).edges ↔ .synthesized e ∈ vs := by
  simp only [ofVerdicts, mem_sortBy, List.mem_filterMap, Verdict.edge?_eq_some, exists_eq_right]

theorem mem_exclusions_ofVerdicts {vs : List Verdict} {e : Exclusion} :
    e ∈ (ofVerdicts vs).exclusions ↔ .excluded e ∈ vs := by
  simp only [ofVerdicts, mem_sortBy, List.mem_filterMap, Verdict.exclusion?_eq_some,
    exists_eq_right]

/-- A verdict that the closure shows, or that it has nothing to show of. -/
def Shows (c : Closure) : Verdict → Prop
  | .direct => True
  | .synthesized e => e ∈ c.edges
  | .excluded e => e ∈ c.exclusions

theorem shows_ofVerdicts {vs : List Verdict} {verdict : Verdict} (h : verdict ∈ vs) :
    (ofVerdicts vs).Shows verdict := by
  cases verdict with
  | direct => trivial
  | synthesized e => exact mem_edges_ofVerdicts.mpr h
  | excluded e => exact mem_exclusions_ofVerdicts.mpr h

/-- What a trail between types that no edge joins passes last before its target. -/
theorem eq_via {p : List TypeId} (ht : t.types = p ++ [v, y]) :
    (t.passed.tail.headD t.source).type = v := by
  have hpassed := congrArg List.reverse ht
  rw [Trail.types, Trail.route, List.map_reverse, List.reverse_reverse] at hpassed
  rcases hr : t.passed with _ | ⟨r, _ | ⟨via, rest⟩⟩
  · simp [hr] at hpassed
  · simp [hr] at hpassed
  · simp only [hr, List.map_cons, List.reverse_append, List.reverse_cons, List.reverse_nil,
      List.nil_append, List.cons_append, List.cons.injEq] at hpassed
    exact hpassed.2.1

theorem mem_of_forall₂_right {α β : Type} {R : α → β → Prop} {as : List α} {bs : List β} {b : β}
    (h : List.Forall₂ R as bs) (hb : b ∈ bs) : ∃ a ∈ as, R a b := by
  induction h with
  | nil => simp at hb
  | @cons a b' as bs hab _ ih =>
      rcases List.mem_cons.mp hb with rfl | hb
      · exact ⟨a, by simp, hab⟩
      · obtain ⟨a', ha', hR⟩ := ih hb
        exact ⟨a', by simp [ha'], hR⟩

theorem mem_of_forall₂_left {α β : Type} {R : α → β → Prop} {as : List α} {bs : List β} {a : α}
    (h : List.Forall₂ R as bs) (ha : a ∈ as) : ∃ b ∈ bs, R a b :=
  mem_of_forall₂_right h.flip ha

namespace Settled

variable {route : List TypeId}

/-- Whatever the closure shows was judged on some first trail. -/
theorem trail_of_shows (h : Settled g d c) (verdict : Verdict) (hne : verdict ≠ .direct)
    (hshows : c.Shows verdict) :
    ∃ trails, FirstTrails g trails ∧ ∃ t ∈ trails, Judged g d t verdict := by
  obtain ⟨trails, verdicts, hfirst, hall, rfl⟩ := h
  have hmem : verdict ∈ verdicts := by
    cases verdict with
    | direct => exact absurd rfl hne
    | synthesized e => exact mem_edges_ofVerdicts.mp hshows
    | excluded e => exact mem_exclusions_ofVerdicts.mp hshows
  obtain ⟨t, ht, hjudged⟩ := mem_of_forall₂_right hall hmem
  exact ⟨trails, hfirst, t, ht, hjudged⟩

theorem judged_of_shows (h : Settled g d c) (verdict : Verdict) (hne : verdict ≠ .direct)
    (hshows : c.Shows verdict) : ∃ t, t.IsRoute g.Adj ∧ Judged g d t verdict := by
  obtain ⟨trails, hfirst, t, ht, hjudged⟩ := h.trail_of_shows verdict hne hshows
  exact ⟨t, hfirst.isRoute t ht, hjudged⟩

/-- A synthesized conversion is made of references that the graph has. -/
theorem mem_references {e : Synthesized} (h : Settled g d c) (he : e ∈ c.edges) :
    e.source ∈ g.references ∧ e.target ∈ g.references ∧ e.via ∈ g.references := by
  obtain ⟨trails, hfirst, t, ht, hjudged⟩ := h.trail_of_shows (.synthesized e) (by simp) he
  obtain ⟨hsource, hpassed⟩ := hfirst.madeOf t ht
  have hhead : ∀ passed : List Reference, (∀ r ∈ passed, r ∈ g.references) →
      passed.headD t.source ∈ g.references := by
    intro passed hall
    cases passed with
    | nil => exact hsource
    | cons r passed => exact hall r (by simp)
  cases hjudged with
  | synthesized _ _ _ =>
      exact ⟨hsource, hhead _ hpassed, hhead _ fun r hr => hpassed r (List.mem_of_mem_tail hr)⟩

/-- Whatever a simple route connects has a first trail, and the closure shows the verdict on
it. -/
theorem shows_of_route (h : Settled g d c) (hroute : SimpleRoute g.Adj x y route) :
    ∃ t verdict, t.ends = (x, y) ∧ t.IsRoute g.Adj ∧ Judged g d t verdict ∧ c.Shows verdict := by
  obtain ⟨trails, verdicts, hfirst, hall, rfl⟩ := h
  obtain ⟨t, ht, hends⟩ := hfirst.complete x y route hroute
  obtain ⟨verdict, hmem, hjudged⟩ := mem_of_forall₂_left hall ht
  exact ⟨t, verdict, hends, hfirst.isRoute t ht, hjudged, shows_ofVerdicts hmem⟩

end Settled

end Closure

end ConversionClosure
