/-
First routes are the best ones.

The search for first routes has one queue for all sources, but for each source the pairs in it
stand in one order: by the length of their trails, and those of one length by their texts.  What
is found later is as good at most.  So by the time a trail is extended, every better way from its
source has led somewhere already, and the trail that finds a pair is the best way between its types
(`Ranked`).

Texts are compared from the source on, as the first edge of the way writes it.  Edges may write one
type with different lifetimes, and then the source alone can decide between two ways.
-/
import ConversionClosure.Proofs.Verdicts
import ConversionClosure.Proofs.Ways

namespace ConversionClosure

namespace Trail

variable {t u : Trail}

/-- The texts of what a trail passes, the source included. -/
def texts (t : Trail) : List String := (t.source :: t.route).map Reference.render

theorem texts_extend (t : Trail) (r : Reference) : (t.extend r).texts = t.texts ++ [r.render] := by
  simp [texts, route, extend]

theorem length_texts (t : Trail) : t.texts.length = t.passed.length + 1 := by
  simp [texts, route]

theorem getLast?_texts (t : Trail) : t.texts.getLast? = some t.target.render := by
  obtain ⟨source, passed⟩ := t
  cases passed with
  | nil => rfl
  | cons r passed =>
      rw [texts, route, List.reverse_cons, ← List.cons_append, List.map_append]
      exact List.getLast?_concat

end Trail

/-! ### What the order in the queue tells -/

namespace Search

variable {g : Graph} {s s' : Search} {t u : Trail} {x y : TypeId} {es : List Edge}

/-- Each trail is an edge or extends one that has been extended, the trails of a source stand in the
order of their texts, and no way is better than the trail between the same types. -/
structure Ranked (g : Graph) (s : Search) : Prop where
  parent : ∀ t ∈ s.trails, t ∈ Closure.edgeTrails g ∨
    ∃ u ∈ s.extended, ∃ r ∈ g.successors u.target, t = u.extend r
  ordered : s.trails.Pairwise fun t u => t.source.type = u.source.type → Precedes t.texts u.texts
  least : ∀ t ∈ s.trails, ∀ es, g.Way t.source.type es t.target.type →
    Precedes t.texts (Graph.wayTexts es)

/-- A search that has started from all edges of a graph, with what it knows while it runs. -/
structure Running (g : Graph) (s : Search) : Prop extends Walks g.Adj s, Ranked g s where
  madeOf : MadeOf g.references s
  passed : ∀ t ∈ s.trails, t.passed ≠ []
  first : ∀ x y, g.Adj x y → s.Found x y

theorem target_mem_references (h : Running g s) (ht : t ∈ s.trails) : t.target ∈ g.references := by
  have hpassed := h.passed t ht
  have hmem := (h.madeOf t ht).2
  obtain ⟨source, passed⟩ := t
  cases passed with
  | nil => exact absurd rfl hpassed
  | cons r passed => exact hmem r (by simp)

/-- Texts that are the same end in the same type. -/
theorem target_eq_of_texts (htell : g.TellsApart) (h : Running g s) (ht : t ∈ s.trails)
    (hu : u ∈ s.trails) (heq : t.texts = u.texts) : t.target.type = u.target.type := by
  refine htell _ (target_mem_references h ht) _ (target_mem_references h hu) ?_
  have hlast := congrArg List.getLast? heq
  rw [Trail.getLast?_texts, Trail.getLast?_texts] at hlast
  exact Option.some.inj hlast

/-- The trail between the types of a way that is better than the trail that is extended next has been
extended: a trail that waits is no better than the one in front of it. -/
theorem extended_of_found {pending : List Trail} (h : Running g s)
    (hp : s.pending = t :: pending) (hway : g.Way t.source.type es y)
    (hlt : Precedes (Graph.wayTexts es) t.texts) (hne : Graph.wayTexts es ≠ t.texts)
    (hfound : s.Found t.source.type y) :
    ∃ w ∈ s.extended, w.source.type = t.source.type ∧ w.target.type = y := by
  obtain ⟨w, hw, -, hends⟩ := hfound
  obtain ⟨hws, hwt⟩ := Prod.mk.inj hends
  have hle : Precedes w.texts (Graph.wayTexts es) := h.least w hw es (hws ▸ hwt ▸ hway)
  have hbehind : ¬ Precedes t.texts w.texts := fun hback =>
    hne (hlt.antisymm (hback.trans hle))
  have hordered := h.ordered
  rw [trails, hp, List.pairwise_append, List.pairwise_cons] at hordered
  rw [trails, hp, List.mem_append, List.mem_reverse, List.mem_cons] at hw
  rcases hw with hw | rfl | hw
  · exact ⟨w, hw, hws, hwt⟩
  · exact absurd (.refl _) hbehind
  · exact absurd (hordered.2.1.1 w hw hws.symm) hbehind

/-- A way that is better than the trail that is extended next leads to a type from where its source
has gone on already.  The induction takes the last edge off the way. -/
theorem extended_of_precedes {pending : List Trail} (h : Running g s)
    (hp : s.pending = t :: pending) (hway : g.Way t.source.type es y)
    (hlt : Precedes (Graph.wayTexts es) t.texts) (hne : Graph.wayTexts es ≠ t.texts)
    (hsource : y ≠ t.source.type) :
    ∃ w ∈ s.extended, w.source.type = t.source.type ∧ w.target.type = y := by
  induction hway with
  | @single e he hx =>
      refine extended_of_found h hp (.single he hx) hlt hne (h.first _ _ ⟨e, he, ?_⟩)
      rw [Edge.ends, hx]
  | @snoc es e hway he ih =>
      refine extended_of_found h hp (hway.snoc he) hlt hne ?_
      by_cases hback : e.source.type = t.source.type
      · exact h.first _ _ ⟨e, he, by rw [Edge.ends, hback]⟩
      · have hlength := hlt.length_le
        rw [hway.texts_snoc, List.length_append, List.length_singleton] at hlength
        have hshorter : (Graph.wayTexts es).length < t.texts.length := by omega
        obtain ⟨w, hw, hws, hwt⟩ := ih (Or.inl hshorter)
          (fun heq => by rw [heq] at hshorter; omega) hback
        have hclosed := h.closed w hw e.target.type (hwt ▸ ⟨e, he, rfl⟩) (hws ▸ hsource)
        rwa [hws] at hclosed

/-! ### One step -/

section Step

variable {pending : List Trail} {r : Reference}

/-- No way to a type that has not been found is better than the trail that finds it. -/
theorem least_extend (htell : g.TellsApart) (h : Running g s) (hp : s.pending = t :: pending)
    (hr : r ∈ g.successors t.target) (hsource : r.type ≠ t.source.type)
    (hnew : ¬ s.Found t.source.type r.type) (hway : g.Way t.source.type es r.type) :
    Precedes (t.extend r).texts (Graph.wayTexts es) := by
  have ht : t ∈ s.trails := by simp [trails, hp]
  obtain ⟨y, hy⟩ : ∃ y, y = r.type := ⟨_, rfl⟩
  rw [← hy] at hway
  cases hway with
  | @single e he hx => exact absurd (h.first _ _ ⟨e, he, by rw [Edge.ends, hx, hy]⟩) hnew
  | @snoc es e hway he =>
      have hback : e.source.type ≠ t.source.type := fun hx =>
        hnew (h.first _ _ ⟨e, he, by rw [Edge.ends, hx, hy]⟩)
      -- a better way to the type before would have gone on to this one
      have hle : Precedes t.texts (Graph.wayTexts es) := by
        by_contra hnot
        have hlt := (Precedes.total t.texts (Graph.wayTexts es)).resolve_left hnot
        obtain ⟨w, hw, hws, hwt⟩ := extended_of_precedes h hp hway hlt
          (fun heq => hnot (heq ▸ .refl _)) hback
        have hclosed := h.closed w hw r.type (hwt ▸ ⟨e, he, by rw [Edge.ends, hy]⟩)
          (hws ▸ hsource)
        exact hnew (hws ▸ hclosed)
      rw [Trail.texts_extend, hway.texts_snoc]
      by_cases heq : t.texts = Graph.wayTexts es
      · obtain ⟨q, hq, hqtype, hlast⟩ := hway.exists_last
        obtain ⟨f, hf, hfs, rfl⟩ := Graph.mem_successors.mp hr
        have hrender : t.target.render = q.render := by
          rw [← heq, Trail.getLast?_texts] at hlast
          exact Option.some.inj hlast
        have htype := htell _ (target_mem_references h ht) _ hq hrender
        have hends : e.ends = f.ends := by rw [Edge.ends, Edge.ends, hy, hfs, htype, hqtype]
        rw [heq, Graph.eq_of_ends he hf hends]
        exact .refl _
      · exact hle.snoc heq _ _

/-- What has been found from a source stands in front of what is found next. -/
theorem precedes_extend {v : Trail} (htell : g.TellsApart) (h : Running g s)
    (hp : s.pending = t :: pending) (hv : v ∈ s.trails) (hsource : v.source.type = t.source.type)
    (r : Reference) : Precedes v.texts (t.extend r).texts := by
  have ht : t ∈ s.trails := by simp [trails, hp]
  rw [Trail.texts_extend]
  rcases h.parent v hv with hedge | ⟨w, hw, q, -, rfl⟩
  · obtain ⟨e, -, rfl⟩ := Closure.mem_edgeTrails.mp hedge
    have hpos : 0 < t.passed.length := List.length_pos_iff.mpr (h.passed t ht)
    refine Or.inl ?_
    rw [List.length_append, Trail.length_texts, Trail.length_texts]
    simpa using hpos
  · have hordered := h.ordered
    have hnodup := h.nodup
    rw [trails, hp, List.pairwise_append] at hordered
    rw [trails, hp, List.map_append, List.nodup_append] at hnodup
    have hbefore : Precedes w.texts t.texts :=
      hordered.2.2 w (List.mem_reverse.mpr hw) t (by simp) hsource
    have hne : w.texts ≠ t.texts := by
      intro heq
      have htype := target_eq_of_texts htell h (by simp [trails, hw]) ht heq
      refine hnodup.2.2 w.ends ?_ t.ends (by simp) (Prod.ext hsource htype)
      exact List.mem_map_of_mem (List.mem_reverse.mpr hw)
    rw [Trail.texts_extend]
    exact hbefore.snoc hne _ _

/-- The trails that extend a trail stand in the order of their texts. -/
theorem onward_pairwise (t : Trail) (forbidden : Reference → Reference → Bool) :
    (onward g.successors forbidden t).Pairwise fun u v => Precedes u.texts v.texts := by
  have hsorted : (g.successors t.target).Pairwise fun a b =>
      (compare a.render b.render).isLE = true := sortBy_pairwise _ _
  rw [onward, List.pairwise_map]
  refine (hsorted.filter _).imp fun hab => ?_
  rw [Trail.texts_extend, Trail.texts_extend]
  exact .snoc_self _ hab

theorem step_running (htell : g.TellsApart)
    (hstep : step? g.successors (fun _ _ => false) s = some s') (h : Running g s) :
    Running g s' := by
  have hkeep := @step_mem_trails g.successors (fun _ _ => false) s s'
  have hwalks : Walks g.Adj s' := step_walks (Closure.takes_all g) hstep h.toWalks
  have hmadeOf : MadeOf g.references s' :=
    step_madeOf (fun a r => Graph.mem_references_of_successors) hstep h.madeOf
  have hpassed : ∀ t ∈ s'.trails, t.passed ≠ [] := Closure.step_passed hstep h.passed
  have hfirst : ∀ x y, g.Adj x y → s'.Found x y := by
    intro x y hadj
    obtain ⟨t, ht, hrest⟩ := h.first x y hadj
    exact ⟨t, hkeep hstep ht, hrest⟩
  obtain ⟨t, pending, hp, rfl⟩ := step?_eq_some hstep
  obtain ⟨new, hsub, htrails, hnew⟩ :=
    trails_foldl (onward g.successors (fun _ _ => false) t) (s.pop t pending)
  rw [trails_pop hp] at htrails
  -- each new trail extends the one in front by an edge to a type that has not been found
  have hextends : ∀ u ∈ new, ∃ r ∈ g.successors t.target, r.type ≠ t.source.type ∧
      u = t.extend r ∧ ¬ s.Found t.source.type r.type := by
    intro u hu
    obtain ⟨r, hr, hsource, -, rfl⟩ := mem_onward.mp (hsub.subset hu)
    exact ⟨r, hr, hsource, rfl, fun hfound => hnew _ hu (h.contains_iff.mpr hfound)⟩
  refine ⟨hwalks, ⟨?_, ?_, ?_⟩, hmadeOf, hpassed, hfirst⟩
  · intro u hu
    rw [extended_foldl]
    rw [htrails, List.mem_append] at hu
    rcases hu with hu | hu
    · exact (h.parent u hu).imp_right fun ⟨w, hw, hrest⟩ => ⟨w, List.mem_cons_of_mem _ hw, hrest⟩
    · obtain ⟨r, hr, -, rfl, -⟩ := hextends u hu
      exact Or.inr ⟨t, List.mem_cons_self, r, hr, rfl⟩
  · rw [htrails, List.pairwise_append]
    refine ⟨h.ordered, ?_, ?_⟩
    · refine List.Pairwise.imp ?_ ((onward_pairwise t _).sublist hsub)
      intro u v huv _
      exact huv
    · intro v hv u hu hsource
      obtain ⟨r, -, -, rfl, -⟩ := hextends u hu
      exact precedes_extend htell h hp hv hsource r
  · intro u hu es hway
    rw [htrails, List.mem_append] at hu
    rcases hu with hu | hu
    · exact h.least u hu es hway
    · obtain ⟨r, hr, hsource, rfl, hnot⟩ := hextends u hu
      exact least_extend htell h hp hr hsource hnot hway

end Step

/-! ### The start -/

theorem start_running (g : Graph) : Running g ((Closure.edgeTrails g).foldl push {}) := by
  have hwalks := Closure.edgeTrails_walks g
  have hsorted : (Closure.edgeTrails g).Pairwise fun t u => Precedes t.texts u.texts := by
    rw [Closure.edgeTrails, List.pairwise_map]
    exact (sortBy_pairwise (fun e : Edge => Edge.key e.source e.target) g.edges).imp fun hab =>
      Or.inr ⟨rfl, hab⟩
  obtain ⟨new, hsub, htrails, -⟩ := trails_foldl (Closure.edgeTrails g) {}
  have hedge : ∀ t ∈ ((Closure.edgeTrails g).foldl push {}).trails, t ∈ Closure.edgeTrails g := by
    intro t ht
    rw [htrails] at ht
    exact hsub.subset (by simpa [trails] using ht)
  refine ⟨hwalks, ⟨?_, ?_, ?_⟩, Closure.edgeTrails_madeOf g, Closure.edgeTrails_passed g,
    fun _ _ => Closure.found_edgeTrails⟩
  · intro t ht
    exact Or.inl (hedge t ht)
  · rw [htrails]
    refine List.Pairwise.imp ?_ (hsorted.sublist hsub)
    intro t u htu _
    exact htu
  · intro t ht es hway
    obtain ⟨e, he, rfl⟩ := Closure.mem_edgeTrails.mp (hedge t ht)
    have hlength := hway.length_texts
    by_cases hone : es.length = 1
    · obtain ⟨f, rfl⟩ := List.length_eq_one_iff.mp hone
      obtain ⟨hf, hends⟩ := hway.of_singleton
      obtain rfl := Graph.eq_of_ends hf he hends
      exact .refl _
    · have hpos := List.length_pos_iff.mpr hway.ne_nil
      refine Or.inl ?_
      rw [Trail.length_texts, hlength]
      simp only [List.length_singleton]
      omega

/-! ### The end -/

theorem exists_running (htell : g.TellsApart) : ∃ s,
    Iterates (step? g.successors fun _ _ => false) ((Closure.edgeTrails g).foldl push {})
      s.trails.length s ∧ s.pending = [] ∧ Running g s := by
  have hstart := start_running g
  obtain ⟨n, s, hiter⟩ := exists_iterates g.nodes (Closure.takes_all g)
    (fun x y hadj => hadj.mem_nodes.2) hstart.toWalks (Closure.edgeTrails_within g)
  have hpending : s.pending = [] := step?_eq_none_iff.mp hiter.step_eq_none
  have hlength : s.trails.length = n := length_trails_of_iterates hiter (extended_foldl _ _)
  refine ⟨s, hlength ▸ hiter, hpending, ?_⟩
  exact hiter.keeps (fun s s' => step_running htell) hstart

/-- What holds of the edges, and of a trail once it holds of the one that it extends, holds of all
trails. -/
theorem Ranked.induct (P : Trail → Prop) (h : Ranked g s)
    (hedge : ∀ t ∈ s.trails, t ∈ Closure.edgeTrails g → P t)
    (hextend : ∀ t ∈ s.trails, ∀ r ∈ g.successors t.target, t.extend r ∈ s.trails → P t →
      P (t.extend r))
    (ht : t ∈ s.trails) : P t := by
  induction hn : t.passed.length generalizing t with
  | zero =>
      rcases h.parent t ht with hstart | ⟨u, -, r, -, rfl⟩
      · exact hedge t ht hstart
      · simp [Trail.extend] at hn
  | succ n ih =>
      rcases h.parent t ht with hstart | ⟨u, hu, r, hr, rfl⟩
      · exact hedge t ht hstart
      · have hmem : u ∈ s.trails := by simp [trails, hu]
        exact hextend u hmem r hr ht (ih hmem (by simpa [Trail.extend] using hn))

end Search

namespace Closure

variable {g : Graph} {t : Trail} {s : Search} {es : List Edge} {y : TypeId}

/-! ### First routes -/

/-- The trail is the best way between its types: it passes references of edges and no type twice, no
route between the types is shorter, and no way that is as long has earlier texts. -/
structure IsBest (g : Graph) (t : Trail) : Prop where
  isRoute : t.IsRoute g.Adj
  exists_way : ∃ es, g.Way t.source.type es t.target.type ∧ Edge.passed es = t.source :: t.route
  shortest : ∀ route, SimpleRoute g.Adj t.source.type t.target.type route →
    t.route.length ≤ route.length
  least : ∀ es, g.Way t.source.type es t.target.type → es.length = t.route.length →
    (compare t.texts (Graph.wayTexts es)).isLE = true

/-- Where the edges from a source write it alike, the hops alone decide. -/
theorem IsBest.least_hops (h : IsBest g t)
    (halike : ∀ e ∈ g.edges, e.source.type = t.source.type → e.source.render = t.source.render)
    (hway : g.Way t.source.type es t.target.type) (hlength : es.length = t.route.length) :
    (compare (t.route.map Reference.render) (es.map fun e => e.target.render)).isLE = true := by
  have hle := h.least es hway hlength
  obtain ⟨e, es, rfl⟩ := List.exists_cons_of_ne_nil hway.ne_nil
  obtain ⟨he, hsource⟩ := hway.head
  have hsame : compare t.source.render e.source.render = .eq := by
    rw [halike e he hsource]
    exact Std.ReflCmp.compare_self
  rw [Trail.texts, Graph.wayTexts, Edge.passed, List.map_cons, List.map_cons,
    List.compare_cons_cons, hsame, List.map_map] at hle
  exact hle

theorem isBest_of_running (h : Search.Running g s) (ht : t ∈ s.trails) : IsBest g t := by
  have hshort : ∀ es, g.Way t.source.type es t.target.type → t.route.length ≤ es.length := by
    intro es hway
    have hle := (h.least t ht es hway).length_le
    rw [Trail.length_texts, hway.length_texts] at hle
    simpa [Trail.route] using hle
  refine ⟨(h.sound t ht).resolve_left (h.passed t ht), ?_, ?_, ?_⟩
  · refine h.toRanked.induct
      (fun t => ∃ es, g.Way t.source.type es t.target.type ∧ Edge.passed es = t.source :: t.route)
      ?_ ?_ ht
    · intro t _ hedge
      obtain ⟨e, he, rfl⟩ := mem_edgeTrails.mp hedge
      exact ⟨[e], .single he rfl, rfl⟩
    · rintro t - r hr - ⟨es, hway, hpassed⟩
      obtain ⟨e, he, hsource, rfl⟩ := Graph.mem_successors.mp hr
      refine ⟨es ++ [e], .snoc (hsource ▸ hway) he, ?_⟩
      rw [hway.passed_snoc, hpassed]
      simp [Trail.route, Trail.extend]
  · intro route hroute
    obtain ⟨es, hway, hlength⟩ := Graph.exists_way hroute
    exact hlength ▸ hshort es hway
  · intro es hway hlength
    refine (h.least t ht es hway).isLE ?_
    rw [Trail.length_texts, hway.length_texts, hlength, Trail.route, List.length_reverse]

theorem does_saturate_of_iterates {n : Nat}
    (h : Iterates (Search.step? g.successors fun _ _ => false)
      ((edgeTrails g).foldl Search.push {}) n s) :
    (saturate g.table.successors g.sortedEdges).Does (List.replicate n .saturate)
      (.ok s.trails) := by
  rw [Graph.successors_table, ← List.append_nil (List.replicate _ _)]
  exact (h.does .saturate).bind (Metered.Does.pure _)

/-- Each part of a trail that starts in its source is a trail of its own. -/
theorem exists_prefix (h : Search.Running g s) (ht : t ∈ s.trails) {route : List Reference}
    (hne : route ≠ []) (hstart : route <+: t.route) :
    ∃ u ∈ s.trails, u.source = t.source ∧ u.route = route := by
  refine h.toRanked.induct
    (fun t => route <+: t.route → ∃ u ∈ s.trails, u.source = t.source ∧ u.route = route)
    ?_ ?_ ht hstart
  · intro t ht hedge hstart
    obtain ⟨e, -, rfl⟩ := mem_edgeTrails.mp hedge
    have hstart : route <+: [] ++ [e.target] := hstart
    rcases List.prefix_concat_iff.mp hstart with heq | hnil
    · exact ⟨_, ht, rfl, heq.symm⟩
    · exact absurd (List.prefix_nil.mp hnil) hne
  · intro t _ r _ ht ih hstart
    rw [Trail.route, Trail.extend, List.reverse_cons] at hstart
    rcases List.prefix_concat_iff.mp hstart with heq | hbefore
    · exact ⟨_, ht, rfl, by rw [heq, Trail.route, Trail.extend, List.reverse_cons]⟩
    · exact ih hbefore

/-- **Saturation finds every pair of types that can be reached, each of them once and by its best
route.** -/
theorem saturate_best (htell : g.TellsApart) : ∃ trails,
    (saturate g.table.successors g.sortedEdges).Does (List.replicate trails.length .saturate)
      (.ok trails) ∧
    (trails.map Trail.ends).Nodup ∧
    (∀ x y, (∃ t ∈ trails, t.ends = (x, y)) ↔ x ≠ y ∧ Relation.TransGen g.Adj x y) ∧
    ∀ t ∈ trails, IsBest g t ∧
      ((∀ e ∈ g.edges, e.source.type = t.source.type → e.source.render = t.source.render) →
        ∀ es, g.Way t.source.type es t.target.type → es.length = t.route.length →
          (compare (t.route.map Reference.render) (es.map fun e => e.target.render)).isLE = true) ∧
      ∀ route, route ≠ [] → route <+: t.route →
        ∃ u ∈ trails, u.source = t.source ∧ u.route = route := by
  obtain ⟨s, hiter, hpending, h⟩ := Search.exists_running htell
  refine ⟨s.trails, does_saturate_of_iterates hiter, h.nodup, fun x y => ⟨?_, ?_⟩, ?_⟩
  · rintro ⟨t, ht, hends⟩
    obtain ⟨rfl, rfl⟩ := Prod.mk.inj hends
    have hroute := (isBest_of_running h ht).isRoute
    exact ⟨hroute.ne, hroute.transGen⟩
  · rintro ⟨hne, hreach⟩
    obtain ⟨route, hroute⟩ := SimpleRoute.exists_of_reflTransGen hreach.to_reflTransGen hne
    obtain ⟨t, ht, -, hends⟩ := h.found_of_simpleRoute hpending
      (fun y hadj _ => h.first x y hadj) hroute
    exact ⟨t, ht, hends⟩
  · intro t ht
    have hbest := isBest_of_running h ht
    exact ⟨hbest, fun halike es hway hlength => hbest.least_hops halike hway hlength,
      fun route hne hstart => exists_prefix h ht hne hstart⟩

/-! ### A source with two texts

From `S` two routes of the same length lead to `T`, over `A` and over `Z`.  The edge to `Z` writes
the source with a lifetime that comes before the one that the edge to `A` writes.
-/

namespace Fork

/-- The reference to `S` with a lifetime. -/
def lent (lifetime : String) : Reference :=
  { modifier := .shared, args := [.ofSegments ["S"]], lifetime }

/-- The conversions from `S`, and those to `T`. -/
def graph : Graph where
  edges := [⟨lent "'a", .ofSegments ["Z"], by decide⟩, ⟨lent "'b", .ofSegments ["A"], by decide⟩,
    ⟨.ofSegments ["Z"], .ofSegments ["T"], by decide⟩,
    ⟨.ofSegments ["A"], .ofSegments ["T"], by decide⟩]
  distinct := by decide

theorem tellsApart : graph.TellsApart := by
  unfold Graph.TellsApart
  decide

/-- Two edges one after the other are a way. -/
theorem way_pair {e f : Edge} (he : e ∈ graph.edges) (hf : f ∈ graph.edges)
    (hsource : e.source.type = (lent "").type) (hjoin : f.source.type = e.target.type) :
    graph.Way (lent "").type [e, f] f.target.type := by
  have hfirst : graph.Way (lent "").type [e] f.source.type := hjoin ▸ .single he hsource
  exact hfirst.snoc hf

/-- The way over `Z`. -/
theorem way_over_z : graph.Way (lent "").type
    [⟨lent "'a", .ofSegments ["Z"], by decide⟩, ⟨.ofSegments ["Z"], .ofSegments ["T"], by decide⟩]
    (Reference.ofSegments ["T"]).type :=
  way_pair (by simp [graph]) (by simp [graph]) (by decide) (by decide)

/-- The way over `A`. -/
theorem way_over_a : graph.Way (lent "").type
    [⟨lent "'b", .ofSegments ["A"], by decide⟩, ⟨.ofSegments ["A"], .ofSegments ["T"], by decide⟩]
    (Reference.ofSegments ["T"]).type :=
  way_pair (by simp [graph]) (by simp [graph]) (by decide) (by decide)

theorem reach : Relation.TransGen graph.Adj (lent "").type (Reference.ofSegments ["T"]).type :=
  way_over_z.reach

/-- The best trail from `S` to `T` goes over `Z`. -/
theorem texts_of_isBest (h : IsBest graph t)
    (hends : t.ends = ((lent "").type, (Reference.ofSegments ["T"]).type)) :
    t.texts = ["&'a S", "Z", "T"] := by
  obtain ⟨hsource, htarget⟩ := Prod.mk.inj hends
  obtain ⟨es, hway, hpassed⟩ := h.exists_way
  have hshort := h.shortest [(Reference.ofSegments ["Z"]).type, (Reference.ofSegments ["T"]).type]
  have hleast := h.least
  have htexts : Graph.wayTexts es = t.texts := congrArg (List.map Reference.render) hpassed
  have hlength : es.length = t.route.length := by
    have hcount := congrArg List.length htexts
    rw [hway.length_texts, Trail.length_texts] at hcount
    simpa [Trail.route] using hcount
  rw [hsource, htarget] at hway hshort hleast
  have htwo : es.length ≤ 2 := hlength ▸ hshort ⟨by decide, by decide, rfl⟩
  rcases es with _ | ⟨e, _ | ⟨f, _ | ⟨f', es⟩⟩⟩
  · exact absurd rfl hway.ne_nil
  · exact absurd ⟨e, hway.of_singleton⟩ (by decide : ¬ graph.Adj _ _)
  · have hle := hleast _ way_over_z hlength
    rw [← htexts] at hle ⊢
    have hall : ∀ e ∈ graph.edges, ∀ f ∈ graph.edges, e.source.type = (lent "").type →
        f.source.type = e.target.type → f.target.type = (Reference.ofSegments ["T"]).type →
        (compare (Graph.wayTexts [e, f]) ["&'a S", "Z", "T"]).isLE = true →
        Graph.wayTexts [e, f] = ["&'a S", "Z", "T"] := by decide
    obtain ⟨he, hf, hes, hfs, hft⟩ := hway.of_pair
    exact hall e he f hf hes hfs hft hle
  · simp at htwo

end Fork

/-- The trail from `S` to `T` is found over `Z`, since the text of the source comes first. -/
theorem saturate_best_fork : ∃ trails,
    (saturate Fork.graph.table.successors Fork.graph.sortedEdges).Does
      (List.replicate trails.length .saturate) (.ok trails) ∧
    ∃ t ∈ trails, t.ends = ((Fork.lent "").type, (Reference.ofSegments ["T"]).type) ∧
      t.texts = ["&'a S", "Z", "T"] := by
  obtain ⟨trails, hdoes, -, hcomplete, hbest⟩ := saturate_best Fork.tellsApart
  obtain ⟨t, ht, hends⟩ := (hcomplete (Fork.lent "").type (Reference.ofSegments ["T"]).type).mpr
    ⟨by decide, Fork.reach⟩
  exact ⟨trails, hdoes, t, ht, hends, Fork.texts_of_isBest (hbest t ht).1 hends⟩

/-- Told by the hops alone, the route over `A` would be the best one. -/
theorem not_least_hops_fork : ¬ ∀ g : Graph, g.TellsApart → ∀ sites trails,
    (saturate g.table.successors g.sortedEdges).Does sites (.ok trails) → ∀ t ∈ trails,
      ∀ es, g.Way t.source.type es t.target.type → es.length = t.route.length →
        (compare (t.route.map Reference.render) (es.map fun e => e.target.render)).isLE = true := by
  intro hhops
  obtain ⟨s, hiter, hpending, h⟩ := Search.exists_running Fork.tellsApart
  obtain ⟨route, hroute⟩ := SimpleRoute.exists_of_reflTransGen Fork.reach.to_reflTransGen (by decide)
  obtain ⟨t, ht, -, hends⟩ := h.found_of_simpleRoute hpending
    (fun y hadj _ => h.first _ y hadj) hroute
  have htexts := Fork.texts_of_isBest (isBest_of_running h ht) hends
  have hrendered : t.route.map Reference.render = ["Z", "T"] := (List.cons.inj htexts).2
  have hlength : t.route.length = 2 := by simpa using congrArg List.length hrendered
  obtain ⟨hsource, htarget⟩ := Prod.mk.inj hends
  have hle := hhops Fork.graph Fork.tellsApart _ _ (does_saturate_of_iterates hiter) t ht
  rw [hsource, htarget, hrendered, hlength] at hle
  exact absurd (hle _ Fork.way_over_a rfl) (by decide)

end Closure

end ConversionClosure
