/-
Ways along the edges of a graph.

A simple route says which types it passes.  A way says which edges it takes, and so it has texts:
that of its source, as its first edge writes it, and that of the target of each edge.

Ways are ranked by these texts, the shorter ones first and those of one length by the first text
that differs.
-/
import ConversionClosure.Proofs.Adjacency
import ConversionClosure.Proofs.Routes
import Mathlib.Data.List.Nodup

namespace ConversionClosure

/-! ### Shorter lists first -/

section Precedes

variable {α : Type} [Ord α] {as bs cs : List α} {a b : α}

/-- The list is shorter, or it is as long and no element decides against it. -/
def Precedes (as bs : List α) : Prop :=
  as.length < bs.length ∨ as.length = bs.length ∧ (compare as bs).isLE = true

theorem compare_append (h : as.length = bs.length) (cs ds : List α) :
    compare (as ++ cs) (bs ++ ds) = (compare as bs).then (compare cs ds) := by
  induction as generalizing bs with
  | nil =>
      obtain rfl : bs = [] := List.eq_nil_of_length_eq_zero h.symm
      rfl
  | cons a as ih =>
      obtain ⟨b, bs, rfl⟩ := List.exists_cons_of_length_eq_add_one h.symm
      rw [List.cons_append, List.cons_append, List.compare_cons_cons, List.compare_cons_cons,
        ih (Nat.succ.inj h), Ordering.then_assoc]

theorem Precedes.length_le (h : Precedes as bs) : as.length ≤ bs.length := by
  rcases h with h | ⟨h, -⟩
  · exact h.le
  · exact h.le

theorem Precedes.isLE (h : Precedes as bs) (hlength : as.length = bs.length) :
    (compare as bs).isLE = true := by
  rcases h with h | ⟨-, h⟩
  · omega
  · exact h

variable [Std.TransOrd α]

theorem Precedes.refl (as : List α) : Precedes as as := Or.inr ⟨rfl, Std.ReflCmp.isLE_rfl⟩

theorem Precedes.trans (h : Precedes as bs) (h' : Precedes bs cs) : Precedes as cs := by
  have hle := h.length_le
  have hle' := h'.length_le
  by_cases heq : as.length = cs.length
  · refine Or.inr ⟨heq, ?_⟩
    exact Std.TransCmp.isLE_trans (h.isLE (by omega)) (h'.isLE (by omega))
  · exact Or.inl (by omega)

theorem Precedes.total (as bs : List α) : Precedes as bs ∨ Precedes bs as := by
  rcases Nat.lt_trichotomy as.length bs.length with h | h | h
  · exact Or.inl (Or.inl h)
  · have hswap : compare bs as = (compare as bs).swap := Std.OrientedCmp.eq_swap
    cases hcompare : compare as bs with
    | lt => exact Or.inl (Or.inr ⟨h, by simp [hcompare]⟩)
    | eq => exact Or.inl (Or.inr ⟨h, by simp [hcompare]⟩)
    | gt => exact Or.inr (Or.inr ⟨h.symm, by simp [hswap, hcompare]⟩)
  · exact Or.inr (Or.inl h)

theorem Precedes.snoc_self (as : List α) (h : (compare a b).isLE = true) :
    Precedes (as ++ [a]) (as ++ [b]) := by
  refine Or.inr ⟨by simp, ?_⟩
  have hlast : compare [a] [b] = compare a b := by
    rw [List.compare_cons_cons]
    cases compare a b <;> rfl
  have hfront : compare as as = .eq := Std.ReflCmp.compare_self
  rw [compare_append rfl, hfront, hlast]
  exact h

variable [Std.LawfulEqOrd α]

theorem Precedes.antisymm (h : Precedes as bs) (h' : Precedes bs as) : as = bs := by
  have heq : as.length = bs.length := Nat.le_antisymm h.length_le h'.length_le
  exact Std.LawfulEqCmp.eq_of_compare
    (Std.OrientedCmp.isLE_antisymm (h.isLE heq) (h'.isLE heq.symm))

omit [Std.TransOrd α] in
/-- What comes first stays first, whatever is put behind both. -/
theorem Precedes.snoc (h : Precedes as bs) (hne : as ≠ bs) (a b : α) :
    Precedes (as ++ [a]) (bs ++ [b]) := by
  rcases h with h | ⟨hlength, hle⟩
  · exact Or.inl (by simpa using h)
  · refine Or.inr ⟨by simpa using hlength, ?_⟩
    rw [compare_append hlength]
    cases hcompare : compare as bs with
    | lt => rfl
    | eq => exact absurd (Std.LawfulEqCmp.eq_of_compare hcompare) hne
    | gt => simp [hcompare] at hle

end Precedes

/-! ### Ways along edges -/

/-- The references that edges one after the other pass: the source of the first one, and the target
of each. -/
def Edge.passed : List Edge → List Reference
  | [] => []
  | e :: es => e.source :: (e :: es).map Edge.target

namespace Graph

variable {g : Graph} {x y : TypeId} {es : List Edge} {e f : Edge}

/-- The edges lead from a type to another one, each on from where the one before it ends. -/
inductive Way (g : Graph) (x : TypeId) : List Edge → TypeId → Prop
  | single {e : Edge} (he : e ∈ g.edges) (hx : e.source.type = x) : Way g x [e] e.target.type
  | snoc {es : List Edge} {e : Edge} (h : Way g x es e.source.type) (he : e ∈ g.edges) :
      Way g x (es ++ [e]) e.target.type

/-- The texts of what edges one after the other pass. -/
def wayTexts (es : List Edge) : List String := (Edge.passed es).map Reference.render

/-- References with one text mean one type. -/
def TellsApart (g : Graph) : Prop :=
  ∀ a ∈ g.references, ∀ b ∈ g.references, a.render = b.render → a.type = b.type

theorem eq_of_ends (he : e ∈ g.edges) (hf : f ∈ g.edges) (h : e.ends = f.ends) : e = f := by
  have hpairwise : (g.edges.map Edge.ends).Nodup := by
    rw [List.Nodup, List.pairwise_map]
    exact g.distinct.imp fun hab heq => hab (Edge.equiv_iff.mpr heq)
  exact List.inj_on_of_nodup_map hpairwise he hf h

namespace Way

theorem ne_nil (h : g.Way x es y) : es ≠ [] := by
  cases h with
  | single => simp
  | snoc => simp

theorem of_singleton (h : g.Way x [e] y) : e ∈ g.edges ∧ e.ends = (x, y) := by
  generalize hes : [e] = es at h
  cases h with
  | single he hx =>
      cases hes
      exact ⟨he, by rw [Edge.ends, hx]⟩
  | snoc h he =>
      obtain ⟨rfl, -⟩ := (List.append_eq_singleton_iff.mp hes.symm).resolve_right (by simp)
      exact absurd rfl h.ne_nil

theorem head (h : g.Way x (e :: es) y) : e ∈ g.edges ∧ e.source.type = x := by
  generalize hes : e :: es = fs at h
  induction h generalizing es with
  | single he hx =>
      obtain ⟨rfl, -⟩ := List.cons.inj hes
      exact ⟨he, hx⟩
  | @snoc fs f h _ ih =>
      cases fs with
      | nil => exact absurd rfl h.ne_nil
      | cons f' fs =>
          obtain ⟨rfl, -⟩ := List.cons.inj hes
          exact ih rfl

theorem of_pair (h : g.Way x [e, f] y) : e ∈ g.edges ∧ f ∈ g.edges ∧ e.source.type = x ∧
    f.source.type = e.target.type ∧ f.target.type = y := by
  generalize hes : [e, f] = es at h
  cases h with
  | single => simp at hes
  | @snoc es f' h hf =>
      obtain ⟨rfl, hlast⟩ := List.append_inj' (show [e] ++ [f] = es ++ [f'] from hes) rfl
      obtain rfl : f = f' := by simpa using hlast
      obtain ⟨he, hends⟩ := h.of_singleton
      obtain ⟨hsource, htarget⟩ := Prod.mk.inj hends
      exact ⟨he, hf, hsource, htarget.symm, rfl⟩

theorem passed_snoc (h : g.Way x es y) (e : Edge) :
    Edge.passed (es ++ [e]) = Edge.passed es ++ [e.target] := by
  cases es with
  | nil => exact absurd rfl h.ne_nil
  | cons f es => simp [Edge.passed]

theorem length_texts (h : g.Way x es y) : (wayTexts es).length = es.length + 1 := by
  cases es with
  | nil => exact absurd rfl h.ne_nil
  | cons f es => simp [wayTexts, Edge.passed]

theorem texts_snoc (h : g.Way x es y) (e : Edge) :
    wayTexts (es ++ [e]) = wayTexts es ++ [e.target.render] := by
  rw [wayTexts, h.passed_snoc, List.map_append]
  rfl

/-- The last text is that of a reference to the type where the way ends. -/
theorem exists_last (h : g.Way x es y) :
    ∃ r ∈ g.references, r.type = y ∧ (wayTexts es).getLast? = some r.render := by
  cases h with
  | @single e he _ => exact ⟨e.target, (mem_references he).2, rfl, rfl⟩
  | @snoc es e h he =>
      exact ⟨e.target, (mem_references he).2, rfl, by rw [h.texts_snoc, List.getLast?_concat]⟩

theorem reach (h : g.Way x es y) : Relation.TransGen g.Adj x y := by
  induction h with
  | @single e he hx => exact .single ⟨e, he, by rw [Edge.ends, hx]⟩
  | @snoc es e _ he ih => exact ih.tail ⟨e, he, rfl⟩

end Way

/-- Every simple route goes along edges. -/
theorem exists_way {route : List TypeId} (h : SimpleRoute g.Adj x y route) :
    ∃ es, g.Way x es y ∧ es.length = route.length := by
  induction route using List.reverseRecOn generalizing y with
  | nil => exact absurd h.last (by simp)
  | append_singleton p v ih =>
      obtain rfl : v = y := by simpa using h.last
      rcases List.eq_nil_or_concat p with rfl | ⟨p', w, rfl⟩
      · obtain ⟨e, he, hends⟩ := List.isChain_pair.mp h.chain
        obtain ⟨hx, rfl⟩ := Prod.mk.inj hends
        exact ⟨[e], .single he hx, rfl⟩
      · rw [List.concat_eq_append, List.append_assoc] at h
        obtain ⟨es, hes, hlength⟩ := ih (List.concat_eq_append ▸ h.upTo)
        obtain ⟨e, he, hends⟩ := h.last_hop
        obtain ⟨rfl, rfl⟩ := Prod.mk.inj hends
        exact ⟨es ++ [e], .snoc hes he, by simp [hlength]⟩

end Graph

end ConversionClosure
