/-
What a breadth-first search finds.

A search finds a pair of types exactly when a simple route leads from one to the other along
the hops it may take.  Both halves are facts that every step keeps.

  * `Holds`: every trail is a simple route, and every type on it has been found from its
    source before, by a shorter trail.  That is why a trail cannot come back to a type it has
    passed, although nothing in a step looks at the trail itself.
  * `Walks`: besides, an edge out of an extended trail ends in a type that has been found.
    Once no trail is pending this says that the search has found all there is to find.

That a search ends at all is a count: the trails have different ends, and there are only so
many types.
-/
import ConversionClosure.Proofs.Adjacency
import ConversionClosure.Proofs.Metering
import ConversionClosure.Proofs.Routes
import Mathlib.Data.List.Perm.Subperm
import Mathlib.Data.List.ProdSigma

namespace ConversionClosure

variable {adj : TypeId → TypeId → Prop} {next : Reference → List Reference}
  {forbidden : Reference → Reference → Bool}

namespace Trail

/-- The types of both ends. -/
def ends (t : Trail) : TypeId × TypeId := (t.source.type, t.target.type)

/-- The types after the source, in order. -/
def types (t : Trail) : List TypeId := t.route.map Reference.type

theorem key_eq_iff {t u : Trail} : t.key = u.key ↔ t.ends = u.ends := by
  simp only [key, ends, Prod.mk.injEq, Reference.elided_eq_iff]

@[simp] theorem types_extend (t : Trail) (r : Reference) :
    (t.extend r).types = t.types ++ [r.type] := by
  simp [types, route, extend]

theorem types_eq_nil {t : Trail} (h : t.passed = []) : t.types = [] := by
  simp [types, route, h]

/-- The trail is a simple route between its ends. -/
def IsRoute (adj : TypeId → TypeId → Prop) (t : Trail) : Prop :=
  SimpleRoute adj t.source.type t.target.type t.types

/-- A trail goes on by a hop to a type that it has not passed. -/
theorem isRoute_extend {t : Trail} {r : Reference} (ht : t.passed = [] ∨ t.IsRoute adj)
    (hadj : adj t.target.type r.type) (hsource : r.type ≠ t.source.type)
    (hnew : r.type ∉ t.types) : (t.extend r).IsRoute adj := by
  show SimpleRoute adj t.source.type r.type (t.extend r).types
  rw [types_extend]
  rcases ht with hpassed | hroute
  · rw [types_eq_nil hpassed]
    rw [target, hpassed] at hadj
    exact SimpleRoute.single hadj hsource.symm
  · exact hroute.extend hadj hsource hnew

end Trail

/-- The hops that a search may take are the edges of `adj`. -/
structure Takes (next : Reference → List Reference) (forbidden : Reference → Reference → Bool)
    (adj : TypeId → TypeId → Prop) : Prop where
  sound : ∀ a, ∀ r ∈ next a, forbidden a r = false → adj a.type r.type
  complete : ∀ a y, adj a.type y → ∃ r ∈ next a, forbidden a r = false ∧ r.type = y

namespace Search

variable {s s' : Search} {t u : Trail} {x y : TypeId} {route : List TypeId}

/-- The search has found a way from one type to another. -/
def Found (s : Search) (x y : TypeId) : Prop :=
  ∃ t ∈ s.trails, t.passed ≠ [] ∧ t.ends = (x, y)

theorem found_of_mem (ht : t ∈ s.trails) (hne : t.passed ≠ []) :
    s.Found t.source.type t.target.type := ⟨t, ht, hne, rfl⟩

/-! ### What trails are -/

/-- Every trail is a simple route that goes along what has been found, and the trails that are
kept under keys are those. -/
structure Holds (adj : TypeId → TypeId → Prop) (s : Search) : Prop where
  sound : ∀ t ∈ s.trails, t.passed = [] ∨ t.IsRoute adj
  known : ∀ t ∈ s.trails, ∀ x ∈ t.types, s.Found t.source.type x
  mem_of_found : ∀ k t, s.found[k]? = some t → t ∈ s.trails ∧ t.passed ≠ [] ∧ t.key = k
  found_of_mem : ∀ t ∈ s.trails, t.passed ≠ [] → s.found[t.key]? = some t
  nodup : (s.trails.map Trail.ends).Nodup

theorem Holds.contains_iff (h : Holds adj s) :
    s.found.contains u.key = true ↔ s.Found u.source.type u.target.type := by
  rw [Std.HashMap.contains_eq_isSome_getElem?, Option.isSome_iff_exists]
  constructor
  · intro hkept
    obtain ⟨t, ht⟩ := hkept
    obtain ⟨hmem, hne, hkey⟩ := h.mem_of_found _ t ht
    exact ⟨t, hmem, hne, Trail.key_eq_iff.mp hkey⟩
  · intro hfound
    obtain ⟨t, hmem, hne, hends⟩ := hfound
    have hkey : t.key = u.key := Trail.key_eq_iff.mpr hends
    exact ⟨t, hkey ▸ h.found_of_mem t hmem hne⟩

/-- A trail that may be added: it goes along what has been found, and it is a simple route
unless its ends have been found. -/
structure Fits (adj : TypeId → TypeId → Prop) (s : Search) (u : Trail) : Prop where
  passed : u.passed ≠ []
  sound : ¬ s.Found u.source.type u.target.type → u.IsRoute adj
  known : ∀ x ∈ u.types, x = u.target.type ∨ s.Found u.source.type x

theorem trails_push (h : ¬ s.found.contains u.key) : (s.push u).trails = s.trails ++ [u] := by
  rw [push, if_neg h]
  simp [trails]

theorem mem_trails_push (ht : t ∈ s.trails) : t ∈ (s.push u).trails := by
  by_cases hc : s.found.contains u.key
  · rw [push, if_pos hc]
    exact ht
  · rw [trails_push hc]
    exact List.mem_append_left _ ht

theorem Found.push (h : s.Found x y) : (s.push u).Found x y := by
  obtain ⟨t, ht, hne, hends⟩ := h
  exact ⟨t, mem_trails_push ht, hne, hends⟩

theorem Fits.push (h : Fits adj s t) : Fits adj (s.push u) t :=
  ⟨h.passed, fun hnew => h.sound fun hf => hnew hf.push,
    fun x hx => (h.known x hx).imp_right Found.push⟩

theorem push_holds (h : Holds adj s) (hu : Fits adj s u) : Holds adj (s.push u) := by
  by_cases hc : s.found.contains u.key
  · rw [push, if_pos hc]
    exact h
  have hnew : ¬ s.Found u.source.type u.target.type := fun hf => hc (h.contains_iff.mpr hf)
  have htrails := trails_push hc
  have hself : (s.push u).Found u.source.type u.target.type :=
    found_of_mem (by simp [htrails]) hu.passed
  have hfound : (s.push u).found = s.found.insert u.key u := by rw [push, if_neg hc]
  -- no trail has the ends of the new one, not even a start that has passed nothing
  have hends : ∀ t ∈ s.trails, t.ends ≠ u.ends := by
    intro t ht heq
    by_cases hne : t.passed = []
    · have hroute := hu.sound hnew
      obtain ⟨hsource, htarget⟩ := Prod.mk.inj heq
      refine hroute.ne (hsource.symm.trans ?_)
      rw [← htarget, Trail.target, hne, List.headD_nil]
    · exact hnew ⟨t, ht, hne, heq⟩
  refine ⟨?_, ?_, ?_, ?_, ?_⟩
  · intro t ht
    rw [htrails, List.mem_append, List.mem_singleton] at ht
    rcases ht with ht | rfl
    · exact h.sound t ht
    · exact Or.inr (hu.sound hnew)
  · intro t ht x hx
    rw [htrails, List.mem_append, List.mem_singleton] at ht
    rcases ht with ht | rfl
    · exact (h.known t ht x hx).push
    · rcases hu.known x hx with rfl | hf
      · exact hself
      · exact hf.push
  · intro k t hk
    rw [hfound, Std.HashMap.getElem?_insert] at hk
    by_cases hkey : u.key = k
    · simp only [hkey, beq_self_eq_true, if_true, Option.some.injEq] at hk
      subst hk
      exact ⟨by simp [htrails], hu.passed, hkey⟩
    · simp only [beq_iff_eq, hkey, if_false] at hk
      obtain ⟨hmem, hrest⟩ := h.mem_of_found k t hk
      exact ⟨mem_trails_push hmem, hrest⟩
  · intro t ht hne
    rw [hfound, Std.HashMap.getElem?_insert]
    rw [htrails, List.mem_append, List.mem_singleton] at ht
    rcases ht with ht | rfl
    · have hkey : u.key ≠ t.key := fun hk => hends t ht (Trail.key_eq_iff.mp hk.symm)
      simp only [beq_iff_eq, hkey, if_false]
      exact h.found_of_mem t ht hne
    · simp
  · rw [htrails, List.map_append, List.nodup_append]
    refine ⟨h.nodup, by simp, ?_⟩
    intro a ha b hb
    obtain ⟨t, ht, rfl⟩ := List.mem_map.mp ha
    obtain rfl : b = u.ends := by simpa using hb
    exact hends t ht

/-! ### Many trails -/

theorem mem_trails_foldl (l : List Trail) {s : Search} (ht : t ∈ s.trails) :
    t ∈ (l.foldl push s).trails := by
  induction l generalizing s with
  | nil => exact ht
  | cons u rest ih => exact ih (mem_trails_push ht)

theorem foldl_mono (l : List Trail) (h : s.Found x y) : (l.foldl push s).Found x y := by
  obtain ⟨t, ht, hne, hends⟩ := h
  exact ⟨t, mem_trails_foldl l ht, hne, hends⟩

theorem extended_foldl (l : List Trail) (s : Search) :
    (l.foldl push s).extended = s.extended := by
  induction l generalizing s with
  | nil => rfl
  | cons u rest ih =>
      rw [List.foldl_cons, ih]
      unfold push
      split
      · rfl
      · rfl

theorem foldl_holds {l : List Trail} {s : Search} (h : Holds adj s)
    (hl : ∀ u ∈ l, Fits adj s u) : Holds adj (l.foldl push s) := by
  induction l generalizing s with
  | nil => exact h
  | cons u rest ih =>
      refine ih (push_holds h (hl u (by simp))) ?_
      intro w hw
      exact (hl w (by simp [hw])).push

/-- What is pushed is found, now if not before. -/
theorem found_foldl {l : List Trail} {s : Search} (h : Holds adj s)
    (hl : ∀ u ∈ l, Fits adj s u) (hu : u ∈ l) :
    (l.foldl push s).Found u.source.type u.target.type := by
  induction l generalizing s with
  | nil => simp at hu
  | cons w rest ih =>
      rw [List.foldl_cons]
      rcases List.mem_cons.mp hu with rfl | hu
      · refine foldl_mono rest ?_
        by_cases hc : s.found.contains u.key
        · exact (h.contains_iff.mp hc).push
        · exact found_of_mem (by simp [trails_push hc]) (hl u (by simp)).passed
      · exact ih (push_holds h (hl w (by simp))) (fun v hv => (hl v (by simp [hv])).push) hu

theorem mem_trails_of_foldl {l : List Trail} {s : Search} (ht : t ∈ (l.foldl push s).trails) :
    t ∈ s.trails ∨ t ∈ l := by
  induction l generalizing s with
  | nil => exact Or.inl ht
  | cons u rest ih =>
      rcases ih ht with h | h
      · by_cases hc : s.found.contains u.key
        · rw [push, if_pos hc] at h
          exact Or.inl h
        · rw [trails_push hc, List.mem_append, List.mem_singleton] at h
          rcases h with h | rfl
          · exact Or.inl h
          · exact Or.inr (by simp)
      · exact Or.inr (by simp [h])

/-- What is pushed is put behind the trails, as far as it is new. -/
theorem trails_foldl (l : List Trail) (s : Search) :
    ∃ new, new.Sublist l ∧ (l.foldl push s).trails = s.trails ++ new ∧
      ∀ u ∈ new, ¬ s.found.contains u.key := by
  induction l generalizing s with
  | nil => exact ⟨[], .refl _, by simp, by simp⟩
  | cons u rest ih =>
      obtain ⟨new, hsub, htrails, hnew⟩ := ih (s.push u)
      by_cases hc : s.found.contains u.key
      · have hsame : s.push u = s := by rw [push, if_pos hc]
        rw [hsame] at htrails hnew
        exact ⟨new, hsub.cons u, by rw [List.foldl_cons, hsame, htrails], hnew⟩
      · refine ⟨u :: new, hsub.cons_cons u, ?_, ?_⟩
        · rw [List.foldl_cons, htrails, trails_push hc, List.append_assoc, List.singleton_append]
        · refine List.forall_mem_cons.mpr ⟨hc, fun w hw hkept => hnew w hw ?_⟩
          have hfound : (s.push u).found = s.found.insert u.key u := by rw [push, if_neg hc]
          rw [hfound, Std.HashMap.contains_insert, hkept, Bool.or_true]

/-! ### One step -/

/-- The search with its oldest pending trail counted as extended. -/
def pop (s : Search) (t : Trail) (pending : List Trail) : Search :=
  { s with extended := t :: s.extended, pending }

theorem trails_pop {pending : List Trail} (h : s.pending = t :: pending) :
    (s.pop t pending).trails = s.trails := by
  simp [pop, trails, h]

theorem step?_eq_some (h : step? next forbidden s = some s') :
    ∃ t pending, s.pending = t :: pending ∧
      s' = (onward next forbidden t).foldl push (s.pop t pending) := by
  unfold step? at h
  split at h
  · simp at h
  · rename_i t pending hpending
    exact ⟨t, pending, hpending, (Option.some.inj h).symm⟩

theorem step?_eq_none_iff : step? next forbidden s = none ↔ s.pending = [] := by
  unfold step?
  split
  · rename_i hpending
    simp [hpending]
  · rename_i hpending
    simp [hpending]

theorem mem_onward : u ∈ onward next forbidden t ↔
    ∃ r ∈ next t.target, r.type ≠ t.source.type ∧ forbidden t.target r = false ∧
      u = t.extend r := by
  simp only [onward, List.mem_map, List.mem_filter, Bool.and_eq_true, Bool.not_eq_true',
    decide_eq_false_iff_not, and_assoc, ← Reference.type_eq_iff, eq_comm (a := u), Ne]

theorem fits_extend {r : Reference} (h : Holds adj s) (ht : t ∈ s.trails)
    (hadj : adj t.target.type r.type) (hsource : r.type ≠ t.source.type) :
    Fits adj s (t.extend r) := by
  refine ⟨by simp [Trail.extend], ?_, ?_⟩
  · intro hnew
    refine Trail.isRoute_extend (h.sound t ht) hadj hsource ?_
    intro hr
    exact hnew (h.known t ht _ hr)
  · intro x hx
    rw [Trail.types_extend, List.mem_append, List.mem_singleton] at hx
    rcases hx with hx | rfl
    · exact Or.inr (h.known t ht x hx)
    · exact Or.inl rfl

theorem pop_holds {pending : List Trail} (h : Holds adj s) (hp : s.pending = t :: pending) :
    Holds adj (s.pop t pending) := by
  have htrails := trails_pop hp
  have hfound : ∀ x y, s.Found x y → (s.pop t pending).Found x y := by
    intro x y hf
    obtain ⟨u, hu, hrest⟩ := hf
    exact ⟨u, htrails ▸ hu, hrest⟩
  refine ⟨?_, ?_, ?_, ?_, ?_⟩
  · intro u hu
    exact h.sound u (htrails ▸ hu)
  · intro u hu x hx
    exact hfound _ _ (h.known u (htrails ▸ hu) x hx)
  · intro k u hk
    rw [htrails]
    exact h.mem_of_found k u hk
  · intro u hu hne
    exact h.found_of_mem u (htrails ▸ hu) hne
  · rw [htrails]
    exact h.nodup

/-! ### What a search knows while it runs -/

/-- Besides, whatever an edge leads to from an extended trail has been found. -/
structure Walks (adj : TypeId → TypeId → Prop) (s : Search) : Prop extends Holds adj s where
  closed : ∀ t ∈ s.extended, ∀ y, adj t.target.type y → y ≠ t.source.type →
    s.Found t.source.type y

theorem step_walks (hT : Takes next forbidden adj) (hstep : step? next forbidden s = some s')
    (h : Walks adj s) : Walks adj s' := by
  obtain ⟨t, pending, hp, rfl⟩ := step?_eq_some hstep
  have hpop : Holds adj (s.pop t pending) := pop_holds h.toHolds hp
  have hmem : t ∈ (s.pop t pending).trails := by simp [pop, trails]
  have hfits : ∀ u ∈ onward next forbidden t, Fits adj (s.pop t pending) u := by
    intro u hu
    obtain ⟨r, hr, hsource, hgo, rfl⟩ := mem_onward.mp hu
    exact fits_extend hpop hmem (hT.sound _ r hr hgo) hsource
  refine ⟨foldl_holds hpop hfits, ?_⟩
  intro u hu y hadj hsource
  rw [extended_foldl] at hu
  rcases List.mem_cons.mp hu with rfl | hu
  · obtain ⟨r, hr, hgo, rfl⟩ := hT.complete _ y hadj
    exact found_foldl hpop hfits (mem_onward.mpr ⟨r, hr, hsource, hgo, rfl⟩)
  · obtain ⟨w, hw, hrest⟩ := h.closed u hu y hadj hsource
    exact foldl_mono _ ⟨w, trails_pop hp ▸ hw, hrest⟩

theorem step_extended (hstep : step? next forbidden s = some s') :
    s'.extended.length = s.extended.length + 1 := by
  obtain ⟨t, pending, -, rfl⟩ := step?_eq_some hstep
  rw [extended_foldl, pop, List.length_cons]

theorem step_mem_trails (hstep : step? next forbidden s = some s') (ht : t ∈ s.trails) :
    t ∈ s'.trails := by
  obtain ⟨u, pending, hp, rfl⟩ := step?_eq_some hstep
  exact mem_trails_foldl _ (trails_pop hp ▸ ht)

/-- What extending a trail keeps holds of all trails after a step if it holds of all before. -/
theorem step_forall {P : Trail → Prop} (hstep : step? next forbidden s = some s')
    (hextend : ∀ t, P t → ∀ r ∈ next t.target, forbidden t.target r = false → P (t.extend r))
    (h : ∀ t ∈ s.trails, P t) : ∀ t ∈ s'.trails, P t := by
  obtain ⟨u, pending, hp, rfl⟩ := step?_eq_some hstep
  have hu : u ∈ s.trails := by simp [trails, hp]
  intro t ht
  rcases mem_trails_of_foldl ht with ht | ht
  · exact h t (trails_pop hp ▸ ht)
  · obtain ⟨r, hr, -, hgo, rfl⟩ := mem_onward.mp ht
    exact hextend u (h u hu) r hr hgo

/-- Each round extends one trail. -/
theorem length_extended_of_iterates {n : Nat} (h : Iterates (step? next forbidden) s n s') :
    s'.extended.length = s.extended.length + n := by
  induction h with
  | stop => rfl
  | more hstep _ ih => rw [ih, step_extended hstep, Nat.add_assoc, Nat.add_comm 1]

/-- In the end every trail has been extended. -/
theorem length_trails_of_iterates {n : Nat} (h : Iterates (step? next forbidden) s n s')
    (hs : s.extended = []) : s'.trails.length = n := by
  have hdone : s'.pending = [] := step?_eq_none_iff.mp h.step_eq_none
  simpa [trails, hdone, hs] using length_extended_of_iterates h

/-! ### The end of a search -/

theorem Holds.simpleRoute (h : Holds adj s) (hf : s.Found x y) :
    ∃ route, SimpleRoute adj x y route := by
  obtain ⟨t, ht, hne, hends⟩ := hf
  obtain ⟨rfl, rfl⟩ := Prod.mk.inj hends
  exact ⟨t.types, (h.sound t ht).resolve_left hne⟩

/-- **A search with no trail left to extend has found everything that a simple route leads to
from a source whose own edges it has found.**  The induction takes the last hop off the
route. -/
theorem Walks.found_of_simpleRoute (h : Walks adj s) (hdone : s.pending = [])
    (hfirst : ∀ y, adj x y → y ≠ x → s.Found x y) (hroute : SimpleRoute adj x y route) :
    s.Found x y := by
  induction route using List.reverseRecOn generalizing y with
  | nil => exact absurd hroute.last (by simp)
  | append_singleton p v ih =>
      obtain rfl : v = y := by simpa using hroute.last
      rcases List.eq_nil_or_concat p with rfl | ⟨p', w, rfl⟩
      · exact hfirst v (List.isChain_pair.mp hroute.chain) hroute.ne.symm
      · rw [List.concat_eq_append, List.append_assoc] at hroute
        obtain ⟨t, ht, -, hends⟩ := ih (List.concat_eq_append ▸ hroute.upTo)
        obtain ⟨rfl, rfl⟩ := Prod.mk.inj hends
        have hext : t ∈ s.extended := by simpa [trails, hdone] using ht
        exact h.closed t hext v hroute.last_hop hroute.ne.symm

theorem empty_walks : Walks adj {} := by
  refine ⟨⟨?_, ?_, ?_, ?_, ?_⟩, ?_⟩
  · simp [trails]
  · simp [trails]
  · simp
  · simp [trails]
  · simp [trails]
  · simp

/-- A search from one type starts with a trail that has passed nothing. -/
theorem source_walks (source : Reference) : Walks adj { pending := [{ source }] } := by
  have hpassed : ∀ t ∈ ({ pending := [{ source }] } : Search).trails, t.passed = [] := by
    intro t ht
    obtain rfl : t = { source } := by simpa [trails] using ht
    rfl
  refine ⟨⟨?_, ?_, ?_, ?_, ?_⟩, ?_⟩
  · intro t ht
    exact Or.inl (hpassed t ht)
  · intro t ht x hx
    rw [Trail.types_eq_nil (hpassed t ht)] at hx
    simp at hx
  · simp
  · intro t ht hne
    exact absurd (hpassed t ht) hne
  · simp [trails]
  · simp

theorem fits_single {source target : Reference} (hadj : adj source.type target.type)
    (hne : source.type ≠ target.type) : Fits adj s { source, passed := [target] } := by
  refine ⟨by simp, ?_, ?_⟩
  · intro _
    exact SimpleRoute.single hadj hne
  · intro x hx
    rw [Trail.types, Trail.route, List.reverse_singleton, List.map_singleton,
      List.mem_singleton] at hx
    exact Or.inl hx

/-! ### Why a search ends -/

/-- All ends of trails are among some types. -/
def Within (nodes : List TypeId) (s : Search) : Prop :=
  ∀ t ∈ s.trails, t.source.type ∈ nodes ∧ t.target.type ∈ nodes

theorem step_within {nodes : List TypeId} (hT : Takes next forbidden adj)
    (hnodes : ∀ x y, adj x y → y ∈ nodes) (hstep : step? next forbidden s = some s')
    (h : Within nodes s) : Within nodes s' := by
  refine step_forall hstep ?_ h
  intro t ht r hr hgo
  exact ⟨ht.1, hnodes _ _ (hT.sound _ r hr hgo)⟩

/-- All trails are made of some references. -/
def MadeOf (refs : List Reference) (s : Search) : Prop :=
  ∀ t ∈ s.trails, t.source ∈ refs ∧ ∀ r ∈ t.passed, r ∈ refs

theorem step_madeOf {refs : List Reference} (hnext : ∀ a, ∀ r ∈ next a, r ∈ refs)
    (hstep : step? next forbidden s = some s') (h : MadeOf refs s) : MadeOf refs s' := by
  refine step_forall hstep ?_ h
  intro t ht r hr _
  refine ⟨ht.1, ?_⟩
  intro q hq
  rcases List.mem_cons.mp hq with rfl | hq
  · exact hnext _ q hr
  · exact ht.2 q hq

/-- There are no more trails than pairs of types, since no two of them share their ends. -/
theorem length_trails_le {nodes : List TypeId} (h : Holds adj s) (hw : Within nodes s) :
    s.trails.length ≤ nodes.length * nodes.length := by
  have hsub : s.trails.map Trail.ends ⊆ nodes.product nodes := by
    intro a ha
    obtain ⟨t, ht, rfl⟩ := List.mem_map.mp ha
    exact List.mem_product.mpr (hw t ht)
  calc s.trails.length = (s.trails.map Trail.ends).length := (List.length_map _).symm
    _ ≤ (nodes.product nodes).length := (List.subperm_of_subset h.nodup hsub).length_le
    _ = nodes.length * nodes.length := List.length_product nodes nodes

/-- **A search ends.** -/
theorem exists_iterates (nodes : List TypeId) (hT : Takes next forbidden adj)
    (hnodes : ∀ x y, adj x y → y ∈ nodes) (h : Walks adj s) (hw : Within nodes s) :
    ∃ n final, Iterates (step? next forbidden) s n final := by
  refine Iterates.exists_of_bounded (I := fun s => Walks adj s ∧ Within nodes s)
    (fun s => s.extended.length) (nodes.length * nodes.length) ?_ ?_ ?_ ⟨h, hw⟩
  · intro s s' hstep hs
    obtain ⟨h, hw⟩ := hs
    exact ⟨step_walks hT hstep h, step_within hT hnodes hstep hw⟩
  · intro s s' hstep
    exact step_extended hstep
  · intro s hs
    obtain ⟨h, hw⟩ := hs
    have hle := length_trails_le h.toHolds hw
    rw [trails, List.length_append, List.length_reverse] at hle
    omega

end Search

end ConversionClosure
