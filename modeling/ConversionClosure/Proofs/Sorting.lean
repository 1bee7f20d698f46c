/-
Lists in the order of their keys.

Sorting keeps the values and puts their keys in order, so the keys of the result depend only on
which values there are.  The result itself depends on nothing else either when no two of the values
have the same key.
-/
import ConversionClosure.Order

namespace ConversionClosure

variable {α κ : Type} [Ord κ] {key : α → κ} {values values' : List α} {a : α}

theorem mem_sortBy : a ∈ sortBy key values ↔ a ∈ values := List.mem_mergeSort

theorem sortBy_perm (key : α → κ) (values : List α) : (sortBy key values).Perm values :=
  List.mergeSort_perm _ _

/-- No key descends in a list in the order of its keys. -/
theorem firstDescent_of_pairwise (index : Nat)
    (h : values.Pairwise fun a b => (compare (key a) (key b)).isLE = true) :
    firstDescent key index values = none := by
  induction values generalizing index with
  | nil => rfl
  | cons a values ih =>
      cases values with
      | nil => rfl
      | cons b values =>
          rw [List.pairwise_cons] at h
          have hle := h.1 b (by simp)
          have hgt : (compare (key a) (key b)).isGT = false := by
            cases hcompare : compare (key a) (key b) with
            | lt => rfl
            | eq => rfl
            | gt => simp [hcompare] at hle
          rw [firstDescent, hgt]
          exact ih (index + 1) h.2

/-- What the keys determine is the same for lists with the same keys. -/
theorem map_eq_of_map_eq {β κ : Type} {key : α → κ} {f : α → β}
    (hf : ∀ a ∈ values, ∀ b ∈ values', key a = key b → f a = f b)
    (h : values.map key = values'.map key) : values.map f = values'.map f := by
  induction values generalizing values' with
  | nil =>
      obtain rfl : values' = [] := by simpa using h.symm
      rfl
  | cons a values ih =>
      obtain ⟨b, values', rfl, hb, hrest⟩ := List.map_eq_cons_iff.mp h.symm
      have hrec := ih (fun c hc d hd => hf c (by simp [hc]) d (by simp [hd])) hrest.symm
      rw [List.map_cons, List.map_cons, hf a (by simp) b (by simp) hb.symm, hrec]

section Ordered

variable [Std.TransOrd κ]

theorem isLE_total (key : α → κ) (a b : α) :
    ((compare (key a) (key b)).isLE || (compare (key b) (key a)).isLE) = true := by
  have hswap : compare (key b) (key a) = (compare (key a) (key b)).swap :=
    Std.OrientedCmp.eq_swap
  rw [hswap]
  cases compare (key a) (key b) <;> rfl

theorem sortBy_pairwise (key : α → κ) (values : List α) :
    (sortBy key values).Pairwise fun a b => (compare (key a) (key b)).isLE = true :=
  List.pairwise_mergeSort (fun _ _ _ => Std.TransCmp.isLE_trans) (isLE_total key) values

/-- What was sorted is accepted where it was promised to be sorted. -/
theorem requireOrdered_sortBy (source : String) (key : α → κ) (values : List α) :
    requireOrdered source key (sortBy key values) = .ok (sortBy key values) := by
  rw [requireOrdered, firstDescent_of_pairwise 0 (sortBy_pairwise key values)]

variable [Std.LawfulEqOrd κ]

/-- The keys in order are determined by which keys there are. -/
theorem map_sortBy_of_perm (h : (values.map key).Perm (values'.map key)) :
    (sortBy key values).map key = (sortBy key values').map key := by
  have hsorted : ∀ values : List α, ((sortBy key values).map key).Pairwise fun k l =>
      (compare k l).isLE = true := by
    intro values
    rw [List.pairwise_map]
    exact sortBy_pairwise key values
  have hperm : ∀ values : List α, ((sortBy key values).map key).Perm (values.map key) :=
    fun values => (sortBy_perm key values).map key
  refine List.Perm.eq_of_pairwise ?_ (hsorted values) (hsorted values')
    ((hperm values).trans (h.trans (hperm values').symm))
  intro k l _ _ hkl hlk
  exact Std.LawfulEqCmp.eq_of_compare (Std.OrientedCmp.isLE_antisymm hkl hlk)

/-- The values in order are determined by the values, if their keys tell them apart. -/
theorem sortBy_of_perm (h : values.Perm values')
    (hkey : ∀ a ∈ values, ∀ b ∈ values, key a = key b → a = b) :
    sortBy key values = sortBy key values' := by
  refine List.Perm.eq_of_pairwise ?_ (sortBy_pairwise key values) (sortBy_pairwise key values') ?_
  · intro a b ha hb hab hba
    refine hkey a (mem_sortBy.mp ha) b (h.mem_iff.mpr (mem_sortBy.mp hb)) ?_
    exact Std.LawfulEqCmp.eq_of_compare (Std.OrientedCmp.isLE_antisymm hab hba)
  · exact (sortBy_perm key values).trans (h.trans (sortBy_perm key values').symm)

end Ordered

end ConversionClosure
