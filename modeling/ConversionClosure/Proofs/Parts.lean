/-
What a reference has and shows, node by node.

The questions about a reference are answered by recursion over it and over the list of its
arguments.  Here each of them is told for a whole list at once.
-/
import ConversionClosure.Reference.Complete

namespace ConversionClosure.Reference

variable {r : Reference} {l : String}

/-! ### Parts that are there -/

theorem allHaveText_eq (rs : List Reference) : allHaveText rs = rs.all hasText := by
  induction rs with
  | nil => rfl
  | cons r rest ih => rw [allHaveText, ih, List.all_cons]

theorem allSettleLifetimes_eq (rs : List Reference) :
    allSettleLifetimes rs = rs.all settlesLifetimes := by
  induction rs with
  | nil => rfl
  | cons r rest ih => rw [allSettleLifetimes, ih, List.all_cons]

/-! ### Lifetimes -/

theorem mem_lifetimesAll {rs : List Reference} :
    l ∈ lifetimesAll rs ↔ ∃ r ∈ rs, l ∈ r.lifetimes := by
  induction rs with
  | nil => simp [lifetimesAll]
  | cons r rs ih => simp [lifetimesAll, ih]

/-- The lifetimes of a node are its own and those of its arguments. -/
theorem mem_lifetimes (h : r.modifier ≠ .verbatim) :
    l ∈ r.lifetimes ↔ l = r.lifetime ∧ l ≠ "" ∨ ∃ a ∈ r.args, l ∈ a.lifetimes := by
  obtain ⟨modifier, segments, args, length, lifetime⟩ := r
  have hown : l ∈ (if lifetime = "" then [] else [lifetime]) ↔ l = lifetime ∧ l ≠ "" := by
    by_cases hempty : lifetime = ""
    · simp [hempty]
    · rw [if_neg hempty, List.mem_singleton]
      exact ⟨fun heq => ⟨heq, heq ▸ hempty⟩, fun heq => heq.1⟩
  rw [← mem_lifetimesAll, ← hown, ← List.mem_append, lifetimes]
  exact h

theorem mem_declaredLifetimes :
    l ∈ r.declaredLifetimes ↔ l ∈ r.lifetimes ∧ l ∉ implicitLifetimes := by
  rw [declaredLifetimes, List.mem_eraseDups, List.mem_filter]
  simp

theorem nodup_eraseDups : (texts : List String) → texts.eraseDups.Nodup
  | [] => by simp
  | text :: texts => by
      rw [List.eraseDups_cons, List.nodup_cons]
      exact ⟨by simp, nodup_eraseDups _⟩
termination_by texts => texts.length
decreasing_by exact Nat.lt_succ_of_le (List.length_filter_le _ _)

/-- No lifetime is declared twice. -/
theorem nodup_declaredLifetimes (r : Reference) : r.declaredLifetimes.Nodup := nodup_eraseDups _

end ConversionClosure.Reference
