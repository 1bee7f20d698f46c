/-
The catalog of some units.

The units decide together which names are declared; their order decides only which declaration of a
name is kept.  Who is a member, and the names in their order, depend on the declared names alone.
-/
import ConversionClosure.Proofs.Adjacency
import ConversionClosure.Proofs.Metering

namespace ConversionClosure.Catalog

variable {c c' : Catalog} {name : String} {units : List SourceUnit}

/-- The declared names. -/
def names (c : Catalog) : List String := c.decls.map TypeDecl.name

theorem hasName_iff : c.hasName name = true ↔ name ∈ c.names := by
  simp [hasName, names]

/-! ### Which names are declared -/

theorem mem_names_insert {d : TypeDecl} :
    name ∈ (c.insert d).names ↔ name ∈ c.names ∨ d.name = name := by
  unfold insert
  by_cases h : c.hasName d.name = true
  · rw [dif_pos h]
    refine ⟨Or.inl, ?_⟩
    intro hor
    rcases hor with hmem | rfl
    · exact hmem
    · exact hasName_iff.mp h
  · rw [dif_neg h]
    simp [names, eq_comm]

theorem mem_names_insertAll {ds : List TypeDecl} :
    name ∈ (c.insertAll ds).names ↔ name ∈ c.names ∨ ∃ d ∈ ds, d.name = name := by
  unfold insertAll
  induction ds generalizing c with
  | nil => simp
  | cons d ds ih => simp [ih, mem_names_insert, or_assoc]

theorem mem_names_insertNames {ns : List String} :
    name ∈ (c.insertNames ns).names ↔ name ∈ c.names ∨ name ∈ ns := by
  rw [insertNames, mem_names_insertAll]
  simp

theorem mem_names_foldl {us : List SourceUnit} :
    name ∈ (us.foldl (fun c unit => c.insertAll unit.types) c).names ↔
      name ∈ c.names ∨ ∃ unit ∈ us, ∃ d ∈ unit.types, d.name = name := by
  induction us generalizing c with
  | nil => simp
  | cons unit us ih => simp [ih, mem_names_insertAll, or_assoc]

/-- The catalog that some units make up. -/
def ofUnits (units : List SourceUnit) : Catalog :=
  (sortBy (fun unit => unit.path.toText) units).foldl (fun c unit => c.insertAll unit.types)
    ⟨[], List.nodup_nil⟩

theorem does_collect_ofUnits (units : List SourceUnit) :
    (collect units).Does (List.replicate units.length .collectTypes) (.ok (ofUnits units)) := by
  have hstep : ∀ unit ∈ sortBy (fun unit : SourceUnit => unit.path.toText) units, ∀ c : Catalog,
      (do Metered.tick .collectTypes; return c.insertAll unit.types : Metered Catalog).Does
        [.collectTypes] (.ok (c.insertAll unit.types)) :=
    fun _ _ _ => (Metered.Does.tick _).bind (Metered.Does.pure _)
  have hfold := Metered.Does.foldlM hstep {}
  rwa [← List.map_eq_flatMap, List.map_const', (sortBy_perm _ units).length_eq] at hfold

theorem mem_names_ofUnits :
    name ∈ (ofUnits units).names ↔ ∃ unit ∈ units, ∃ d ∈ unit.types, d.name = name := by
  rw [ofUnits, mem_names_foldl]
  simp [names, mem_sortBy]

/-- **The catalog comes to an end, with the names that some unit declares.** -/
theorem does_collect (units : List SourceUnit) :
    ∃ c, (collect units).Does (List.replicate units.length .collectTypes) (.ok c) ∧
      ∀ name, name ∈ c.names ↔ ∃ unit ∈ units, ∃ d ∈ unit.types, d.name = name :=
  ⟨_, does_collect_ofUnits units, fun _ => mem_names_ofUnits⟩

/-! ### What the names decide -/

theorem names_perm (h : ∀ name, name ∈ c.names ↔ name ∈ c'.names) : c.names.Perm c'.names :=
  (List.perm_ext_iff_of_nodup c.nodup c'.nodup).mpr h

theorem render_reference (d : TypeDecl) : d.reference.render = d.name := by
  simp [TypeDecl.reference, Reference.ofSegments, Reference.render, Reference.renderAll]

/-- The texts of the declared types, in their order. -/
theorem sorted_texts (h : ∀ name, name ∈ c.names ↔ name ∈ c'.names) :
    c.sorted.map (·.reference.render) = c'.sorted.map (·.reference.render) := by
  refine map_sortBy_of_perm ?_
  rw [funext render_reference]
  exact names_perm h

theorem declares_iff {x : TypeId} :
    c.Declares x ↔ ∃ name ∈ c.names, (Reference.ofSegments [name]).type = x := by
  simp only [Declares, names, List.mem_map, exists_exists_and_eq_and]
  rfl

theorem contains_congr (h : ∀ name, name ∈ c.names ↔ name ∈ c'.names) :
    c.contains = c'.contains := by
  funext r
  rw [Bool.eq_iff_iff, contains_iff, contains_iff, declares_iff, declares_iff]
  exact exists_congr fun name => and_congr_left' (h name)

/-- Of some names, their paths become members and nothing else does. -/
theorem contains_insertNames {ns : List String} {r : Reference} :
    (c.insertNames ns).contains r = true ↔
      c.contains r = true ∨ ∃ name ∈ ns, r ≈ .ofSegments [name] := by
  have hequiv : ∀ name, (Reference.ofSegments [name]).type = r.type ↔ r ≈ .ofSegments [name] :=
    fun name => eq_comm.trans Reference.type_eq_iff
  simp only [contains_iff, declares_iff, mem_names_insertNames, or_and_right, exists_or, hequiv]

end ConversionClosure.Catalog
