/-
Lists whose order was promised.

Sorting keeps the values, puts their keys in order, and leaves the values that have one key in the
order they came in.  A promise of order is checked without sorting, by comparing neighbours.  That
is enough, since orders are transitive: where no two neighbours descend, no two values do.  So the
check lets through just the lists that sorting would leave as they are, and of any other list it
names the first two neighbours that descend.
-/
import ConversionClosure.Proofs.Sorting

namespace ConversionClosure

variable {α κ : Type} [Ord κ] {key : α → κ} {values : List α} {a b : α} {i place index : Nat}

/-! ### Places where keys descend -/

/-- The key at the place is above the next one. -/
def DescendsAt (key : α → κ) (values : List α) (i : Nat) : Prop :=
  ∃ a b, values[i]? = some a ∧ values[i + 1]? = some b ∧ (compare (key a) (key b)).isGT = true

/-- Keys descend at the place, and at none before it. -/
structure DescendsFirstAt (key : α → κ) (values : List α) (i : Nat) : Prop where
  descends : DescendsAt key values i
  first : ∀ j < i, ¬ DescendsAt key values j

theorem descendsAt_zero :
    DescendsAt key (a :: b :: values) 0 ↔ (compare (key a) (key b)).isGT = true := by
  simp [DescendsAt]

theorem descendsAt_succ : DescendsAt key (a :: values) (i + 1) ↔ DescendsAt key values i := by
  simp [DescendsAt]

/-- A place of the rest is one further in the whole list. -/
theorem DescendsFirstAt.cons (h : DescendsFirstAt key (b :: values) i)
    (hle : (compare (key a) (key b)).isGT = false) :
    DescendsFirstAt key (a :: b :: values) (i + 1) where
  descends := descendsAt_succ.mpr h.descends
  first := by
    intro j hj
    cases j with
    | zero => simp [descendsAt_zero, hle]
    | succ j =>
        rw [descendsAt_succ]
        exact h.first j (Nat.lt_of_succ_lt_succ hj)

/-- The check counts on from the place that it is told. -/
theorem descendsFirstAt_of_firstDescent (h : firstDescent key index values = some place) :
    ∃ i, place = index + i ∧ DescendsFirstAt key values i := by
  induction values generalizing index with
  | nil => cases h
  | cons a values ih =>
      cases values with
      | nil => cases h
      | cons b values =>
          rw [firstDescent] at h
          split at h
          · rename_i hgt
            obtain rfl := Option.some.inj h
            exact ⟨0, rfl, descendsAt_zero.mpr hgt, fun j hj => absurd hj (Nat.not_lt_zero j)⟩
          · rename_i hle
            obtain ⟨i, rfl, hfirst⟩ := ih h
            exact ⟨i + 1, by omega, hfirst.cons (Bool.not_eq_true _ ▸ hle)⟩

section Ordered

variable [Std.TransOrd κ]

/-! ### What the check lets through -/

/-- Where no neighbours descend, no two values do. -/
theorem pairwise_of_firstDescent (h : firstDescent key index values = none) :
    values.Pairwise fun a b => (compare (key a) (key b)).isLE = true := by
  induction values generalizing index with
  | nil => exact .nil
  | cons a values ih =>
      cases values with
      | nil => exact List.pairwise_singleton _ a
      | cons b values =>
          rw [firstDescent] at h
          split at h
          · cases h
          · rename_i hgt
            have hrest := ih h
            have hle : (compare (key a) (key b)).isLE = true := by
              rw [Ordering.isLE_iff_ne_gt]
              intro heq
              exact hgt (by rw [heq]; rfl)
            refine List.pairwise_cons.mpr ⟨fun c hc => ?_, hrest⟩
            rcases List.mem_cons.mp hc with rfl | hc
            · exact hle
            · exact Std.TransCmp.isLE_trans hle ((List.pairwise_cons.mp hrest).1 c hc)

theorem sortBy_eq_self_iff : sortBy key values = values ↔
    values.Pairwise fun a b => (compare (key a) (key b)).isLE = true := by
  constructor
  · intro h
    rw [← h]
    exact sortBy_pairwise key values
  · exact fun h => List.mergeSort_of_pairwise h

theorem firstDescent_eq_none_iff :
    firstDescent key index values = none ↔ sortBy key values = values := by
  rw [sortBy_eq_self_iff]
  exact ⟨pairwise_of_firstDescent, firstDescent_of_pairwise index⟩

/-! ### Values with one key -/

/-- Values with one key are as many after sorting as before, and in order already, so sorting
leaves them as they are. -/
theorem filter_sortBy (key : α → κ) (values : List α) (k : κ) :
    (sortBy key values).filter (fun a => compare (key a) k == .eq) =
      values.filter fun a => compare (key a) k == .eq := by
  have hpairwise : (values.filter fun a => compare (key a) k == .eq).Pairwise
      fun a b => (compare (key a) (key b)).isLE = true := by
    refine List.pairwise_of_forall_mem_list fun a ha b hb => ?_
    have hak : compare (key a) k = .eq := by simpa using (List.mem_filter.mp ha).2
    have hbk : compare (key b) k = .eq := by simpa using (List.mem_filter.mp hb).2
    rw [Std.TransCmp.eq_trans hak (Std.OrientedCmp.eq_comm.mp hbk)]
    rfl
  have hsublist : (values.filter fun a => compare (key a) k == .eq).Sublist (sortBy key values) :=
    List.sublist_mergeSort (fun _ _ _ => Std.TransCmp.isLE_trans) (isLE_total key) hpairwise
      List.filter_sublist
  have hkept := hsublist.filter fun a => compare (key a) k == .eq
  simp only [List.filter_filter, Bool.and_self] at hkept
  exact (hkept.eq_of_length ((sortBy_perm key values).symm.filter _).length_eq).symm

/-- **A promise of order is kept by the lists that sorting leaves as they are**, and by no other.
Sorting keeps the values and brings their keys in order; values with one key keep their order.
Where the promise is broken, the first two neighbours that descend are named. -/
theorem order_enforced (source : String) (key : α → κ) (values : List α) :
    (sortBy key values).Perm values ∧
    ((sortBy key values).Pairwise fun a b => (compare (key a) (key b)).isLE = true) ∧
    (∀ k, (sortBy key values).filter (fun a => compare (key a) k == .eq) =
      values.filter fun a => compare (key a) k == .eq) ∧
    (requireOrdered source key values = .ok values ↔ sortBy key values = values) ∧
    (sortBy key values ≠ values → ∃ i, DescendsFirstAt key values i ∧
      requireOrdered source key values = .error (.broken (.unordered source i (i + 1)))) := by
  refine ⟨sortBy_perm key values, sortBy_pairwise key values, filter_sortBy key values, ?_, ?_⟩
  · rw [← @firstDescent_eq_none_iff _ _ _ key values 0, requireOrdered]
    cases firstDescent key 0 values with
    | none => simp
    | some place => simp
  · intro hne
    cases hdescent : firstDescent key 0 values with
    | none => exact absurd (firstDescent_eq_none_iff.mp hdescent) hne
    | some place =>
        obtain ⟨i, hplace, hfirst⟩ := descendsFirstAt_of_firstDescent hdescent
        rw [Nat.zero_add] at hplace
        exact ⟨i, hfirst, by rw [requireOrdered, hdescent, hplace]⟩

end Ordered

/-! Levels that climb to a plateau and go down again: the first descent is behind the plateau, which
sorting leaves in its order. -/

def levels : List (Nat × Char) := [(1, 'a'), (2, 'b'), (2, 'c'), (1, 'd'), (0, 'e')]

theorem order_enforced_levels :
    requireOrdered "levels" Prod.fst levels = .error (.broken (.unordered "levels" 2 3)) ∧
      (sortBy Prod.fst levels).filter (fun p => compare p.1 2 == .eq) = [(2, 'b'), (2, 'c')] := by
  obtain ⟨-, -, hstable, -, hbroken⟩ := order_enforced "levels" Prod.fst levels
  have hne : sortBy Prod.fst levels ≠ levels := by
    rw [Ne, sortBy_eq_self_iff]
    decide
  obtain ⟨i, hfirst, herror⟩ := hbroken hne
  obtain rfl : 2 = i := by
    have hplace : requireOrdered "levels" Prod.fst levels =
        .error (.broken (.unordered "levels" 2 3)) := rfl
    rw [hplace] at herror
    cases herror
    rfl
  exact ⟨herror, hstable 2⟩

end ConversionClosure
