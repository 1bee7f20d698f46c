/-
The edges of a graph as a relation between types.

References that differ in lifetimes mean the same type, so routes and closures are about types,
not about references.  A type is the class of the references that mean it.

`Adj` is the relation, and every function of a graph is tied to it once here: the table of
successors, the edge test, the insertion of pairs.
-/
import ConversionClosure.Catalog
import ConversionClosure.Graph.Basic
import ConversionClosure.Proofs.Sorting
import Mathlib.Data.Quot
import Mathlib.Logic.Relation

namespace ConversionClosure

/-- A type: what the references mean that differ in lifetimes at most. -/
abbrev TypeId : Type := Quotient (inferInstance : Setoid Reference)

namespace Reference

/-- The type that a reference means. -/
def type (r : Reference) : TypeId := Quotient.mk _ r

theorem type_eq_iff {a b : Reference} : a.type = b.type ↔ a ≈ b := Quotient.eq

theorem elided_eq_iff {a b : Reference} : a.elided = b.elided ↔ a.type = b.type :=
  type_eq_iff.symm

end Reference

/-- The type is declared. -/
def Catalog.Declares (c : Catalog) (x : TypeId) : Prop := ∃ d ∈ c.decls, d.reference.type = x

instance (c : Catalog) (x : TypeId) : Decidable (c.Declares x) :=
  inferInstanceAs (Decidable (∃ d ∈ c.decls, d.reference.type = x))

theorem Catalog.contains_iff {c : Catalog} {r : Reference} :
    c.contains r = true ↔ c.Declares r.type := by
  simp only [Catalog.contains, List.any_eq_true, decide_eq_true_eq, Catalog.Declares]
  refine exists_congr fun d => and_congr_right fun _ => ?_
  rw [← Reference.type_eq_iff]
  exact eq_comm

namespace Edge

/-- The types of both ends. -/
def ends (e : Edge) : TypeId × TypeId := (e.source.type, e.target.type)

/-- The references at both ends. -/
def pair (e : Edge) : Reference × Reference := (e.source, e.target)

theorem pair_inj {a b : Edge} (h : a.pair = b.pair) : a = b := by
  obtain ⟨source, target, _⟩ := a
  obtain ⟨source', target', _⟩ := b
  obtain ⟨rfl, rfl⟩ := Prod.mk.inj h
  rfl

theorem equiv_iff {a b : Edge} : a ≈ b ↔ a.ends = b.ends := by
  rw [ends, ends, Prod.mk.injEq, Reference.type_eq_iff, Reference.type_eq_iff]
  exact Iff.rfl

end Edge

namespace Graph

variable {g g' : Graph} {x y : TypeId}

/-- There is an edge from one type to another. -/
def Adj (g : Graph) (x y : TypeId) : Prop := ∃ e ∈ g.edges, e.ends = (x, y)

instance (g : Graph) (x y : TypeId) : Decidable (g.Adj x y) :=
  inferInstanceAs (Decidable (∃ e ∈ g.edges, e.ends = (x, y)))

theorem Adj.ne (h : g.Adj x y) : x ≠ y := by
  obtain ⟨e, -, he⟩ := h
  obtain ⟨rfl, rfl⟩ := Prod.mk.inj he
  rw [Ne, Reference.type_eq_iff]
  exact e.distinct

/-- The references at the ends of the edges. -/
def references (g : Graph) : List Reference := g.edges.flatMap fun e => [e.source, e.target]

theorem mem_references {e : Edge} (he : e ∈ g.edges) :
    e.source ∈ g.references ∧ e.target ∈ g.references :=
  ⟨List.mem_flatMap.mpr ⟨e, he, by simp⟩, List.mem_flatMap.mpr ⟨e, he, by simp⟩⟩

/-- Each type has at most one successor if its edges all have the same target. -/
theorem adj_rightUnique
    (h : ∀ e ∈ g.edges, ∀ f ∈ g.edges, e.source.type = f.source.type →
      e.target.type = f.target.type) : Relator.RightUnique g.Adj := by
  intro x y z hxy hxz
  obtain ⟨e, he, hy⟩ := hxy
  obtain ⟨f, hf, hz⟩ := hxz
  obtain ⟨hsy, rfl⟩ := Prod.mk.inj hy
  obtain ⟨hsz, rfl⟩ := Prod.mk.inj hz
  exact h e he f hf (hsy.trans hsz.symm)

/-! ### Successors -/

theorem mem_successors {a r : Reference} :
    r ∈ g.successors a ↔ ∃ e ∈ g.edges, e.source.type = a.type ∧ e.target = r := by
  simp only [successors, mem_sortBy, List.mem_map, List.mem_filter, decide_eq_true_eq,
    Reference.type_eq_iff, and_assoc]

theorem mem_references_of_successors {a r : Reference} (h : r ∈ g.successors a) :
    r ∈ g.references := by
  obtain ⟨e, he, -, rfl⟩ := mem_successors.mp h
  exact (mem_references he).2

theorem adj_type_iff {a : Reference} : g.Adj a.type y ↔ ∃ r ∈ g.successors a, r.type = y := by
  constructor
  · intro hadj
    obtain ⟨e, he, hends⟩ := hadj
    obtain ⟨hs, ht⟩ := Prod.mk.inj hends
    exact ⟨e.target, mem_successors.mpr ⟨e, he, hs, rfl⟩, ht⟩
  · intro hsuccessor
    obtain ⟨r, hr, rfl⟩ := hsuccessor
    obtain ⟨e, he, hs, rfl⟩ := mem_successors.mp hr
    exact ⟨e, he, by rw [Edge.ends, hs]⟩

theorem any_successors_iff {a b : Reference} :
    ((g.successors a).any fun r => r ≈ b) = true ↔ g.Adj a.type b.type := by
  simp only [List.any_eq_true, decide_eq_true_eq, adj_type_iff, Reference.type_eq_iff]

theorem contains_iff {a b : Reference} : g.contains a b = true ↔ g.Adj a.type b.type :=
  any_successors_iff

/-- The targets are kept under their sources, in the order of the edges. -/
theorem getD_foldl_add (edges : List Edge) (t : Table) (k : Reference) :
    (edges.foldl Table.add t).getD k [] =
      t.getD k [] ++ (edges.filter fun e => e.source.elided = k).map Edge.target := by
  induction edges generalizing t with
  | nil => simp
  | cons e rest ih =>
      rw [List.foldl_cons, ih, Table.add, Std.HashMap.getD_insert, List.filter_cons]
      by_cases hk : e.source.elided = k
      · simp [hk]
      · simp [hk]

/-- The table gives the successors of the graph. -/
theorem successors_table (g : Graph) : g.table.successors = g.successors := by
  funext a
  have htargets : g.targets.getD a.elided [] =
      (g.edges.filter fun e => e.source ≈ a).map Edge.target := by
    rw [targets, getD_foldl_add, Std.HashMap.getD_empty, List.nil_append]
    rfl
  rw [Table.successors, table, successors, ← htargets, Std.HashMap.getD_map,
    Std.HashMap.getD_eq_getD_getElem?]
  cases g.targets[a.elided]? with
  | none => simp [sortBy]
  | some rs => rfl

/-! ### Insertion -/

theorem adj_insert {e : Edge} : (g.insert e).Adj x y ↔ g.Adj x y ∨ e.ends = (x, y) := by
  unfold insert
  by_cases h : ∃ f ∈ g.edges, f ≈ e
  · rw [dif_pos h]
    obtain ⟨f, hf, hfe⟩ := h
    rw [Edge.equiv_iff] at hfe
    refine ⟨Or.inl, ?_⟩
    intro hor
    rcases hor with hg | he
    · exact hg
    · exact ⟨f, hf, hfe.trans he⟩
  · rw [dif_neg h]
    simp only [Adj, List.mem_append, List.mem_singleton, or_and_right, exists_or,
      exists_eq_left]

theorem mem_insert {e f : Edge} (h : e ∈ (g.insert f).edges) : e ∈ g.edges ∨ e = f := by
  unfold insert at h
  split at h
  · exact Or.inl h
  · simpa using h

/-- Every edge was there before or is among those that were inserted. -/
theorem mem_foldl_insert (edges : List Edge) {e : Edge} (h : e ∈ (edges.foldl insert g).edges) :
    e ∈ g.edges ∨ e ∈ edges := by
  induction edges generalizing g with
  | nil => exact Or.inl h
  | cons f rest ih =>
      rcases ih h with hg | hrest
      · rcases mem_insert hg with hg | rfl
        · exact Or.inl hg
        · exact Or.inr (by simp)
      · exact Or.inr (by simp [hrest])

theorem adj_foldl_insert (edges : List Edge) (g : Graph) :
    (edges.foldl insert g).Adj x y ↔ g.Adj x y ∨ ∃ e ∈ edges, e.ends = (x, y) := by
  induction edges generalizing g with
  | nil => simp
  | cons e rest ih =>
      rw [List.foldl_cons, ih, adj_insert]
      simp only [List.mem_cons, or_and_right, exists_or, exists_eq_left, or_assoc]

end Graph

end ConversionClosure
