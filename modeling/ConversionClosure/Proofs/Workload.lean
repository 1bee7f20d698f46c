/-
What the closure of a graph is charged for.

A pair of types is charged once when its first trail is found and once when it is judged.  All
other charges are rounds of the searches for second routes.

Each pair may ask for a search for every hop of its first trail.  That there are no more searches
from a source than types it leads to is due to the first trails: each part of one that starts in the
source is the first trail to where it ends, so a hop is known by the source and by where it leads
(`lastKey`).  A search is kept under its source and its hop, and so there is one at most for each
type.  It extends one trail for each type it finds, and the one that has passed nothing.
-/
import ConversionClosure.Proofs.Exactness
import Mathlib.Algebra.BigOperators.Group.Finset.Piecewise
import Mathlib.Algebra.BigOperators.Ring.Finset
import Mathlib.Algebra.Group.Action.Defs
import Mathlib.Algebra.Order.BigOperators.Group.Finset

namespace ConversionClosure

/-! ### What can be reached -/

namespace Graph

variable {g : Graph} {x y : TypeId}

open Classical in
/-- The types other than a type that can be reached from it. -/
noncomputable def reachable (g : Graph) (x : TypeId) : Finset TypeId :=
  g.nodes.toFinset.filter fun y => y ≠ x ∧ Relation.TransGen g.Adj x y

/-- How many other types can be reached from a type. -/
noncomputable def reach (g : Graph) (x : TypeId) : Nat := (g.reachable x).card

/-- How many pairs there are of a type and another one that can be reached from it. -/
noncomputable def pairs (g : Graph) : Nat := ∑ x ∈ g.nodes.toFinset, g.reach x

theorem mem_nodes_of_transGen (h : Relation.TransGen g.Adj x y) : x ∈ g.nodes ∧ y ∈ g.nodes := by
  obtain ⟨v, hfirst, -⟩ := Relation.TransGen.head'_iff.mp h
  obtain ⟨w, -, hlast⟩ := Relation.TransGen.tail'_iff.mp h
  exact ⟨hfirst.mem_nodes.1, hlast.mem_nodes.2⟩

theorem mem_reachable : y ∈ g.reachable x ↔ y ≠ x ∧ Relation.TransGen g.Adj x y := by
  simp only [reachable, Finset.mem_filter, List.mem_toFinset, and_iff_right_iff_imp]
  intro h
  exact (mem_nodes_of_transGen h.2).2

end Graph

/-- What is told apart by members of a set is no more than the set has. -/
theorem length_le_card {α β : Type} [DecidableEq β] {f : α → β} {l : List α} {S : Finset β}
    (hnodup : (l.map f).Nodup) (hmem : ∀ a ∈ l, f a ∈ S) : l.length ≤ S.card := by
  calc l.length = (l.map f).toFinset.card := by
        rw [List.toFinset_card_of_nodup hnodup, List.length_map]
    _ ≤ S.card := by
        refine Finset.card_le_card ?_
        intro b hb
        obtain ⟨a, ha, rfl⟩ := List.mem_map.mp (List.mem_toFinset.mp hb)
        exact hmem a ha

namespace Closure

variable {g : Graph} {d : Catalog} {t u : Trail} {trails : List Trail} {known : Detours}
  {source : Reference} {hop : Hop} {search : Search} {x y : TypeId} {n : Nat}

namespace FirstTrails

theorem exists_ends_iff (h : FirstTrails g trails) :
    (∃ t ∈ trails, t.ends = (x, y)) ↔ y ∈ g.reachable x := by
  rw [Graph.mem_reachable]
  constructor
  · rintro ⟨t, ht, hends⟩
    obtain ⟨rfl, rfl⟩ := Prod.mk.inj hends
    have hroute := h.isRoute t ht
    exact ⟨hroute.ne.symm, hroute.transGen⟩
  · rintro ⟨hne, hreach⟩
    obtain ⟨route, hroute⟩ := SimpleRoute.exists_of_reflTransGen hreach.to_reflTransGen hne.symm
    exact h.complete x y route hroute

/-- There is one first trail for each pair. -/
theorem length_eq (h : FirstTrails g trails) : trails.length = g.pairs := by
  have hmem : ∀ p, p ∈ (trails.map Trail.ends).toFinset ↔ p.2 ∈ g.reachable p.1 := by
    rintro ⟨x, y⟩
    rw [List.mem_toFinset, List.mem_map, h.exists_ends_iff]
  have hsource : ∀ p ∈ (trails.map Trail.ends).toFinset, p.1 ∈ g.nodes.toFinset := by
    intro p hp
    rw [List.mem_toFinset]
    exact (Graph.mem_nodes_of_transGen (Graph.mem_reachable.mp ((hmem p).mp hp)).2).1
  rw [← List.length_map Trail.ends, ← List.toFinset_card_of_nodup h.nodup,
    Finset.card_eq_sum_card_fiberwise hsource]
  refine Finset.sum_congr rfl fun x _ => ?_
  -- the pairs with one source are told apart by their targets
  have hfiber : (trails.map Trail.ends).toFinset.filter (fun p => p.1 = x) =
      (g.reachable x).image (Prod.mk x) := by
    ext ⟨x', y⟩
    rw [Finset.mem_filter, hmem, Finset.mem_image]
    constructor
    · rintro ⟨hy, rfl⟩
      exact ⟨y, hy, rfl⟩
    · rintro ⟨y', hy, heq⟩
      obtain ⟨rfl, rfl⟩ := Prod.mk.inj heq
      exact ⟨hy, rfl⟩
  rw [hfiber, Finset.card_image_of_injective _ (Prod.mk_right_injective x), Graph.reach]

end FirstTrails

/-! ### Hops of first trails -/

/-- What the search is kept under that forbids the last hop of a trail. -/
def lastKey (t : Trail) : Reference × Hop :=
  detourKey t.source (t.passed.tail.headD t.source, t.target)

/-- The types of the source and of where the forbidden hop leads. -/
def keyEnds (key : Reference × Hop) : TypeId × TypeId := (key.1.type, key.2.2.type)

theorem keyEnds_detourKey : keyEnds (detourKey source hop) = (source.type, hop.2.type) := by
  simp only [keyEnds, detourKey, Prod.mk.injEq, ← Reference.elided_eq_iff, Reference.elided_elided,
    and_self]

theorem keyEnds_lastKey (t : Trail) : keyEnds (lastKey t) = t.ends := keyEnds_detourKey

theorem hops_append_singleton {ν : Type} (s r : ν) (p : List ν) :
    hops s (p ++ [r]) = hops s p ++ [(p.getLastD s, r)] := by
  induction p generalizing s with
  | nil => rfl
  | cons x p ih => rw [List.cons_append, hops, ih, hops, List.getLastD_cons, List.cons_append]

/-- Each hop of a first trail is the last one of a first trail.  The induction takes the last hop
off the trail. -/
theorem FirstTrails.exists_lastKey (h : FirstTrails g trails) {passed : List Reference}
    (ht : { source, passed } ∈ trails) (hhop : hop ∈ hops source passed.reverse) :
    ∃ u ∈ trails, lastKey u = detourKey source hop := by
  induction passed with
  | nil => simp [hops] at hhop
  | cons r rest ih =>
      rw [List.reverse_cons, hops_append_singleton, List.mem_append, List.mem_singleton] at hhop
      rcases hhop with hhop | rfl
      · refine ih (h.closed source r rest ht ?_) hhop
        rintro rfl
        simp [hops] at hhop
      · refine ⟨_, ht, ?_⟩
        simp [lastKey, Trail.target, List.getLastD_eq_getLast?, List.headD_eq_head?_getD]

theorem FirstTrails.exists_of_mem_detourKeys (h : FirstTrails g trails) {key : Reference × Hop}
    (hkey : key ∈ trails.flatMap detourKeys) : ∃ u ∈ trails, lastKey u = key := by
  obtain ⟨t, ht, hkey⟩ := List.mem_flatMap.mp hkey
  obtain ⟨hop, hhop, rfl⟩ := List.mem_map.mp hkey
  exact h.exists_lastKey ht hhop

/-! ### How many searches there are -/

/-- The searches from a type among those that are kept. -/
def Detours.searchesFrom (known : Detours) (x : TypeId) : List ((Reference × Hop) × Search) :=
  known.toList.filter fun entry => entry.1.1.type = x

theorem mem_of_kept {key : Reference × Hop} (h : known[key]? = some search) : key ∈ known := by
  rw [Std.HashMap.mem_iff_isSome_getElem?, h]
  rfl

/-- Searches that forbid last hops of first trails are told apart by where these hops lead. -/
theorem length_searchesFrom_le (h : FirstTrails g trails)
    (hkeys : ∀ key ∈ known, ∃ u ∈ trails, lastKey u = key) (x : TypeId) :
    (known.searchesFrom x).length ≤ g.reach x := by
  have hlast : ∀ entry ∈ known.searchesFrom x, ∃ u ∈ trails, lastKey u = entry.1 ∧
      u.ends = (x, entry.1.2.2.type) := by
    intro entry hentry
    obtain ⟨hentry, hsource⟩ := List.mem_filter.mp hentry
    have hmem : entry.1 ∈ known :=
      mem_of_kept (Std.HashMap.mem_toList_iff_getElem?_eq_some.mp hentry)
    obtain ⟨u, hu, hkey⟩ := hkeys _ hmem
    refine ⟨u, hu, hkey, ?_⟩
    rw [← keyEnds_lastKey, hkey, keyEnds, of_decide_eq_true hsource]
  refine length_le_card (f := fun entry => entry.1.2.2.type) ?_ ?_
  · have hdistinct : (known.searchesFrom x).Pairwise fun a b => (a.1 == b.1) = false :=
      Std.HashMap.distinct_keys_toList.filter _
    refine List.pairwise_map.mpr (hdistinct.imp_of_mem ?_)
    intro a b ha hb hne heq
    -- both hops are last hops of the one first trail from `x` to where they lead
    obtain ⟨u, hu, hkey, hends⟩ := hlast a ha
    obtain ⟨w, hw, hkey', hends'⟩ := hlast b hb
    obtain rfl : u = w := List.inj_on_of_nodup_map h.nodup hu hw (by rw [hends, hends', heq])
    rw [← hkey, ← hkey'] at hne
    simp at hne
  · intro entry hentry
    obtain ⟨u, hu, -, hends⟩ := hlast entry hentry
    exact h.exists_ends_iff.mp ⟨u, hu, hends⟩

/-! ### How long a search is -/

/-- A search extends one trail for each type that it finds, and the one that has passed nothing. -/
theorem IsDetour.length_extended_le (h : IsDetour g source hop search) :
    search.extended.length ≤ g.reach source.type + 1 := by
  have hwalks := h.walks
  have htrails : search.extended.length = search.trails.length := by
    simp [Search.trails, h.pending_eq_nil]
  obtain ⟨source', hop', n, hkey, hiter⟩ := h
  have hsource : ∀ t ∈ search.trails, t.source = source' :=
    hiter.keeps (I := fun s => ∀ t ∈ s.trails, t.source = source')
      (fun s s' hstep => Search.step_forall hstep fun t ht r _ _ => ht) (by simp [Search.trails])
  rw [← (detourKey_eq_iff.mp hkey).1, htrails]
  refine (length_le_card (f := fun t => t.target.type)
    (S := insert source'.type (g.reachable source'.type)) ?_ ?_).trans (Finset.card_insert_le _ _)
  · refine List.pairwise_map.mpr ((List.pairwise_map.mp hwalks.nodup).imp_of_mem ?_)
    intro t u ht hu hne htarget
    exact hne (by rw [Trail.ends, Trail.ends, hsource t ht, hsource u hu, htarget])
  · intro t ht
    rw [Finset.mem_insert, Graph.mem_reachable, ← hsource t ht]
    rcases hwalks.sound t ht with hstart | hroute
    · exact .inl (by rw [Trail.target, hstart, List.headD_nil])
    · exact .inr ⟨hroute.ne.symm, (hroute.mono fun a b hadj => hadj.1).transGen⟩

/-! ### The account -/

/-- A sum over a list is the sum over its parts. -/
theorem sum_map_eq_sum_filter {α β : Type} [DecidableEq β] {f : α → β} (w : α → Nat) {S : Finset β}
    {l : List α} (h : ∀ a ∈ l, f a ∈ S) :
    (l.map w).sum = ∑ b ∈ S, ((l.filter fun a => f a = b).map w).sum := by
  induction l with
  | nil => simp
  | cons a l ih =>
      have hsplit : ∀ b, (((a :: l).filter fun a => f a = b).map w).sum =
          (if f a = b then w a else 0) + ((l.filter fun a => f a = b).map w).sum := by
        intro b
        by_cases hb : f a = b
        · simp [hb]
        · simp [hb]
      rw [Finset.sum_congr rfl fun b _ => hsplit b, Finset.sum_add_distrib, Finset.sum_ite_eq,
        if_pos (h a (by simp)), ← ih fun b hb => h b (by simp [hb]), List.map_cons, List.sum_cons]

/-- What a closure is charged for besides saturation, and what there is of it. -/
structure Workload (g : Graph) (known : Detours) (sites : List Site) : Prop where
  /-- Each pair is charged when it is judged, and each search that is kept for each trail that it
  has extended. -/
  sites_perm : sites.Perm
    (List.replicate g.pairs .synthesize ++ List.replicate known.rounds .search)
  /-- What is kept under a key is what the search came to that was run for it. -/
  run : ∀ key search, known[key]? = some search → ∃ source hop, detourKey source hop = key ∧
    Iterates (Search.step? g.successors (isHop hop)) { pending := [{ source }] }
      search.extended.length search
  /-- There are no more searches from a type than other types that it leads to. -/
  few : ∀ x, (known.searchesFrom x).length ≤ g.reach x
  /-- No search extends more trails than one for each of these types and one for its start. -/
  short : ∀ x, ∀ entry ∈ known.searchesFrom x, entry.2.extended.length ≤ g.reach x + 1

namespace Workload

variable {sites : List Site}

theorem length_eq (h : Workload g known sites) : sites.length = g.pairs + known.rounds := by
  rw [h.sites_perm.length_eq, List.length_append, List.length_replicate, List.length_replicate]

/-- A search is kept under a type of the graph, since no other type leads anywhere. -/
theorem mem_nodes (h : Workload g known sites) {entry : (Reference × Hop) × Search}
    (hentry : entry ∈ known.toList) : entry.1.1.type ∈ g.nodes.toFinset := by
  have hmem : entry ∈ known.searchesFrom entry.1.1.type :=
    List.mem_filter.mpr ⟨hentry, decide_eq_true rfl⟩
  have hpos : 0 < g.reach entry.1.1.type :=
    (List.length_pos_of_mem hmem).trans_le (h.few entry.1.1.type)
  obtain ⟨y, hy⟩ := Finset.card_pos.mp hpos
  exact List.mem_toFinset.mpr (Graph.mem_nodes_of_transGen (Graph.mem_reachable.mp hy).2).1

theorem rounds_le (h : Workload g known sites) :
    known.rounds ≤ ∑ x ∈ g.nodes.toFinset, g.reach x * (g.reach x + 1) := by
  rw [Detours.rounds, List.length_flatMap, sum_map_eq_sum_filter _ fun entry => h.mem_nodes]
  refine Finset.sum_le_sum fun x _ => ?_
  have hsum := List.sum_le_card_nsmul
    ((known.searchesFrom x).map fun entry => entry.2.extended.length) (g.reach x + 1) ?_
  · rw [List.length_map, smul_eq_mul] at hsum
    exact hsum.trans (Nat.mul_le_mul_right _ (h.few x))
  · intro n hn
    obtain ⟨entry, hentry, rfl⟩ := List.mem_map.mp hn
    exact h.short x entry hentry

end Workload

/-- What judging first trails keeps and is charged for is a workload. -/
theorem FirstTrails.workload (h : FirstTrails g trails) (hk : Kept g known)
    (hadds : Adds (trails.flatMap detourKeys) n {} known) {sites : List Site}
    (hperm : sites.Perm (List.replicate trails.length .synthesize ++ List.replicate n .search)) :
    Workload g known sites := by
  have hempty : Detours.rounds {} = 0 := by simp [Detours.rounds]
  have hrounds : known.rounds = n := by rw [hadds.rounds_eq, hempty, Nat.zero_add]
  have hkeys : ∀ key ∈ known, ∃ u ∈ trails, lastKey u = key := by
    intro key hkey
    exact h.exists_of_mem_detourKeys ((hadds.mem_or key hkey).resolve_left (by simp))
  have hdetour : ∀ key search, known[key]? = some search →
      ∃ source hop, detourKey source hop = key ∧ IsDetour g source hop search := by
    intro key search hkept
    obtain ⟨u, -, rfl⟩ := hkeys key (mem_of_kept hkept)
    exact ⟨_, _, rfl, hk _ _ search hkept⟩
  refine ⟨by rwa [hrounds, ← h.length_eq], ?_, length_searchesFrom_le h hkeys, ?_⟩
  · intro key search hkept
    obtain ⟨source, hop, rfl, source', hop', n', hsame, hiter⟩ := hdetour key search hkept
    refine ⟨source', hop', hsame, ?_⟩
    rw [Search.length_extended_of_iterates hiter, List.length_nil, Nat.zero_add]
    exact hiter
  · intro x entry hentry
    obtain ⟨hentry, hsource⟩ := List.mem_filter.mp hentry
    obtain ⟨source, hop, hkey, hdetour⟩ :=
      hdetour _ _ (Std.HashMap.mem_toList_iff_getElem?_eq_some.mp hentry)
    have hx : source.type = x := by
      rw [← of_decide_eq_true hsource, ← hkey]
      exact (Prod.mk.inj keyEnds_detourKey).1.symm
    exact hx ▸ hdetour.length_extended_le

/-- **The work of a closure is bounded by what can be reached.**  A run that comes to its end is
charged twice for each pair and once for each trail that a search extends, and no run is charged for
more. -/
theorem synthesize_workload (d : Catalog) (h : g.hasTexts = true) :
    ∃ trails verdicts known sites,
      (saturate g.table.successors g.sortedEdges).Does (List.replicate g.pairs .saturate)
          (.ok trails) ∧
        ((trails.mapM (judge g.table.successors d.contains)).run {}).Does sites
          (.ok (verdicts, known)) ∧
        (synthesize g d).Does (List.replicate g.pairs .saturate ++ sites)
          (.ok (ofVerdicts verdicts)) ∧
        Workload g known sites ∧
        (∀ scope b c b', (synthesize g d).runWith scope b = (.ok c, b') →
          b'.total = b.total + (2 * g.pairs + known.rounds)) ∧
        ∀ scope b, ((synthesize g d).runWith scope b).2.total ≤
          b.total + ∑ x ∈ g.nodes.toFinset, (2 * g.reach x + g.reach x * (g.reach x + 1)) := by
  obtain ⟨n, trails, sites, verdicts, known, hsaturate, hmap, hdoes, hfirst, -, hk, hadds, hperm⟩ :=
    does_synthesize_of_saturate d h
  have hwork := hfirst.workload hk hadds hperm
  rw [← Graph.successors_table] at hsaturate hmap
  rw [hfirst.length_eq] at hsaturate hdoes
  refine ⟨trails, verdicts, known, sites, hsaturate, hmap, hdoes, hwork, ?_, ?_⟩
  · intro scope b c b' hrun
    rw [(hdoes scope).total_eq hrun, List.length_map, List.length_append, List.length_replicate,
      hwork.length_eq]
    omega
  · intro scope b
    have hle := (hdoes scope).total_le b
    rw [List.length_map, List.length_append, List.length_replicate, hwork.length_eq] at hle
    have hrounds := hwork.rounds_le
    rw [Finset.sum_add_distrib, ← Finset.mul_sum, ← Graph.pairs]
    omega

/-- A run on the chain of four types that comes to its end, and the searches that it keeps. -/
theorem synthesize_workload_relay :
    Relay.graph.hasTexts = true ∧
      ∃ (scope : Scope) (b : Budget) (c : Closure) (b' : Budget) (known : Detours)
        (sites : List Site),
        (synthesize Relay.graph Relay.declared).runWith scope b = (.ok c, b') ∧
          Workload Relay.graph known sites ∧
          b'.total = b.total + (2 * Relay.graph.pairs + known.rounds) := by
  obtain ⟨scope, b, c, b', hrun⟩ := exists_runWith Relay.declared Relay.hasTexts
  obtain ⟨trails, verdicts, known, sites, -, -, -, hwork, htotal, -⟩ :=
    synthesize_workload Relay.declared Relay.hasTexts
  exact ⟨Relay.hasTexts, scope, b, c, b', known, sites, hrun, hwork, htotal scope b c b' hrun⟩

end Closure

end ConversionClosure
