/-
The trails of a search are the shortest.

A search extends its trails in the order in which they were found, and an extended trail is longer
by one hop than the one it came from.  So among the trails from one source none is shorter than one
in front of it, and when a trail is extended, whatever a shorter walk leads to has gone on already.
That is why the trail which finds a type is as short as any walk to it (`Layered`).

The bound is on walks, which may come back to types they have passed, their source among them.
-/
import ConversionClosure.Proofs.Search

namespace ConversionClosure

section Walks

variable {ν : Type} {adj : ν → ν → Prop} {s t v : ν} {p route : List ν}

/-- A walk: the types after the source, each one hop after the type before it, the last one the
target. -/
structure Walk (adj : ν → ν → Prop) (s t : ν) (route : List ν) : Prop where
  chain : List.IsChain adj (s :: route)
  last : route.getLast? = some t

theorem SimpleRoute.walk (h : SimpleRoute adj s t route) : Walk adj s t route := ⟨h.chain, h.last⟩

namespace Walk

theorem length_pos (h : Walk adj s t route) : 0 < route.length := by
  refine List.length_pos_iff.mpr ?_
  rintro rfl
  cases h.last

/-- The last hop of a walk goes out from its source or from where the walk before it leads. -/
theorem last_hop (h : Walk adj s t (p ++ [v])) :
    v = t ∧ (p = [] ∧ adj s t ∨ ∃ u, Walk adj s u p ∧ adj u t) := by
  obtain rfl : v = t := by simpa using h.last
  refine ⟨rfl, ?_⟩
  rcases List.eq_nil_or_concat p with rfl | ⟨q, u, rfl⟩
  · exact .inl ⟨rfl, List.isChain_pair.mp h.chain⟩
  · rw [List.concat_eq_append] at h ⊢
    have hchain := h.chain
    rw [← List.cons_append] at hchain
    have hsuffix : [u, v] <:+ s :: (q ++ [u] ++ [v]) := ⟨s :: q, by simp⟩
    exact .inr ⟨u, ⟨hchain.left_of_append, by simp⟩, List.isChain_pair.mp (h.chain.suffix hsuffix)⟩

end Walk

end Walks

namespace Search

variable {adj : TypeId → TypeId → Prop} {next : Reference → List Reference}
  {forbidden : Reference → Reference → Bool} {s s' : Search} {t u w : Trail} {r : Reference}
  {pending : List Trail} {y : TypeId} {route : List TypeId}

/-- Besides what a search knows while it runs: what the edges from a source lead to is found first,
each trail that passes more than one type extends one that has been extended, no trail is shorter
than one in front of it that has the same source, and no walk is shorter than the trail between its
ends. -/
structure Layered (adj : TypeId → TypeId → Prop) (s : Search) : Prop extends Walks adj s where
  first : ∀ t ∈ s.trails, t.passed ≠ [] → ∀ y, adj t.source.type y → y ≠ t.source.type →
    s.Found t.source.type y
  parent : ∀ t ∈ s.trails, t.passed.length ≤ 1 ∨ ∃ u ∈ s.extended, ∃ r, t = u.extend r
  ordered : s.trails.Pairwise fun t u =>
    t.source.type = u.source.type → t.passed.length ≤ u.passed.length
  shortest : ∀ t ∈ s.trails, ∀ route, Walk adj t.source.type t.target.type route →
    t.passed.length ≤ route.length

@[simp] theorem length_passed_extend : (t.extend r).passed.length = t.passed.length + 1 := rfl

/-- A trail that is shorter than the one that is extended next has been extended. -/
theorem Layered.mem_extended (h : Layered adj s) (hp : s.pending = t :: pending)
    (hw : w ∈ s.trails) (hsource : w.source.type = t.source.type)
    (hlt : w.passed.length < t.passed.length) : w ∈ s.extended := by
  have hordered := h.ordered
  rw [trails, hp, List.pairwise_append, List.pairwise_cons] at hordered
  rw [trails, hp, List.mem_append, List.mem_reverse, List.mem_cons] at hw
  rcases hw with hw | rfl | hw
  · exact hw
  · omega
  · have hle := hordered.2.1.1 w hw hsource.symm
    omega

/-- What a walk leads to that is no longer than the trail that is extended next has been found.  The
induction takes the last hop off the walk. -/
theorem Layered.found_of_walk (h : Layered adj s) (hp : s.pending = t :: pending)
    (hroute : Walk adj t.source.type y route) (hle : route.length ≤ t.passed.length)
    (hne : y ≠ t.source.type) : s.Found t.source.type y := by
  have ht : t ∈ s.trails := by simp [trails, hp]
  have hpassed : t.passed ≠ [] := by
    have hpos := hroute.length_pos
    exact List.length_pos_iff.mp (by omega)
  induction route using List.reverseRecOn generalizing y with
  | nil => cases hroute.last
  | append_singleton p v ih =>
      rw [List.length_append, List.length_singleton] at hle
      obtain ⟨-, ⟨-, hadj⟩ | ⟨u, hwalk, hadj⟩⟩ := hroute.last_hop
      · exact h.first t ht hpassed y hadj hne
      by_cases hu : u = t.source.type
      · exact h.first t ht hpassed y (hu ▸ hadj) hne
      -- the trail to the type before is shorter, so it has been extended
      obtain ⟨w, hw, -, hends⟩ := ih hwalk (by omega) hu
      obtain ⟨hsource, rfl⟩ := Prod.mk.inj hends
      have hshort := h.shortest w hw p (hsource ▸ hwalk)
      have hextended := h.mem_extended hp hw hsource (by omega)
      exact hsource ▸ h.closed w hextended y hadj (hsource ▸ hne)

theorem step_layered (hT : Takes next forbidden adj) (hstep : step? next forbidden s = some s')
    (h : Layered adj s) : Layered adj s' := by
  have hwalks : Walks adj s' := step_walks hT hstep h.toWalks
  obtain ⟨t, pending, hp, rfl⟩ := step?_eq_some hstep
  have ht : t ∈ s.trails := by simp [trails, hp]
  obtain ⟨new, hsub, htrails, hnew⟩ := trails_foldl (onward next forbidden t) (s.pop t pending)
  rw [trails_pop hp] at htrails
  have hkeep : ∀ x y, s.Found x y →
      ((onward next forbidden t).foldl push (s.pop t pending)).Found x y := by
    rintro x y ⟨w, hw, hrest⟩
    exact ⟨w, htrails ▸ List.mem_append_left _ hw, hrest⟩
  have hextended : ((onward next forbidden t).foldl push (s.pop t pending)).extended =
      t :: s.extended := extended_foldl _ _
  -- each new trail extends the one in front by a hop to a type that has not been found
  have hextends : ∀ u ∈ new, ∃ r, u = t.extend r ∧ r.type ≠ t.source.type ∧
      ¬ s.Found t.source.type r.type := by
    intro u hu
    obtain ⟨r, -, hsource, -, rfl⟩ := mem_onward.mp (hsub.subset hu)
    exact ⟨r, rfl, hsource, fun hfound => hnew _ hu (h.contains_iff.mpr hfound)⟩
  refine ⟨hwalks, ?_, ?_, ?_, ?_⟩
  · intro u hu hpassed y hadj hne
    rw [htrails, List.mem_append] at hu
    rcases hu with hu | hu
    · exact hkeep _ _ (h.first u hu hpassed y hadj hne)
    · obtain ⟨r, rfl, -, -⟩ := hextends u hu
      by_cases hstart : t.passed = []
      · have htarget : t.target = t.source := by rw [Trail.target, hstart, List.headD_nil]
        exact hwalks.closed t (hextended ▸ List.mem_cons_self) y (htarget ▸ hadj) hne
      · exact hkeep _ _ (h.first t ht hstart y hadj hne)
  · intro u hu
    rw [hextended]
    rw [htrails, List.mem_append] at hu
    rcases hu with hu | hu
    · refine (h.parent u hu).imp_right ?_
      rintro ⟨w, hw, hrest⟩
      exact ⟨w, List.mem_cons_of_mem _ hw, hrest⟩
    · obtain ⟨r, rfl, -, -⟩ := hextends u hu
      exact .inr ⟨t, List.mem_cons_self, r, rfl⟩
  · rw [htrails, List.pairwise_append]
    refine ⟨h.ordered, ?_, ?_⟩
    · refine List.pairwise_of_forall_mem_list ?_
      intro u hu v hv _
      obtain ⟨r, rfl, -, -⟩ := hextends u hu
      obtain ⟨q, rfl, -, -⟩ := hextends v hv
      exact Nat.le_refl _
    · intro v hv u hu hsource
      obtain ⟨r, rfl, -, -⟩ := hextends u hu
      rw [length_passed_extend]
      rcases h.parent v hv with hone | ⟨w, hw, q, rfl⟩
      · omega
      · have hordered := h.ordered
        rw [trails, hp, List.pairwise_append] at hordered
        have hle := hordered.2.2 w (List.mem_reverse.mpr hw) t (by simp) hsource
        rw [length_passed_extend]
        omega
  · intro u hu route hroute
    rw [htrails, List.mem_append] at hu
    rcases hu with hu | hu
    · exact h.shortest u hu route hroute
    · obtain ⟨r, rfl, hsource, hnot⟩ := hextends u hu
      by_contra hlong
      rw [length_passed_extend] at hlong
      exact hnot (h.found_of_walk hp hroute (by omega) hsource)

/-- A search from one type starts with a trail that has passed nothing. -/
theorem source_layered (source : Reference) : Layered adj { pending := [{ source }] } := by
  have hpassed : ∀ t ∈ ({ pending := [{ source }] } : Search).trails, t.passed = [] := by
    intro t ht
    obtain rfl : t = { source } := by simpa [trails] using ht
    rfl
  refine ⟨source_walks source, ?_, ?_, by simp [trails], ?_⟩
  · intro t ht hne
    exact absurd (hpassed t ht) hne
  · intro t ht
    exact .inl (by simp [hpassed t ht])
  · intro t ht route _
    simp [hpassed t ht]

/-- Each part of a trail that starts in its source, and is not empty, is a trail of its own. -/
theorem Layered.mem_of_cons (h : Layered adj s) {source : Reference} {rest : List Reference}
    (ht : { source, passed := r :: rest } ∈ s.trails) (hrest : rest ≠ []) :
    { source, passed := rest } ∈ s.trails := by
  have hpos := List.length_pos_iff.mpr hrest
  rcases h.parent _ ht with hone | ⟨w, hw, q, heq⟩
  · simp only [List.length_cons] at hone
    omega
  · obtain ⟨hsource, hpassed⟩ := Trail.mk.inj heq
    obtain ⟨-, rfl⟩ := List.cons.inj hpassed
    obtain rfl : source = w.source := hsource
    simp [trails, hw]

end Search

end ConversionClosure
