/-
Catalogs of declared types.

A catalog holds each declared name once, with the declaration that was met first.  Its
members are the paths of one segment without arguments; how many parameters a type has does
not matter to who is a member.
-/
import ConversionClosure.Order
import ConversionClosure.Reference.Render
import ConversionClosure.Work.Metered

namespace ConversionClosure

namespace TypeDecl

/-- The reference to a declared type without arguments. -/
def reference (d : TypeDecl) : Reference := .ofSegments [d.name]

end TypeDecl

/-- The declared types in the order in which they were met. -/
structure Catalog where
  decls : List TypeDecl := []
  nodup : (decls.map TypeDecl.name).Nodup := by simp

namespace Catalog

/-- The name is declared. -/
def hasName (c : Catalog) (name : String) : Bool := c.decls.any fun d => d.name == name

theorem not_mem_of_hasName {c : Catalog} {name : String} (h : ¬ c.hasName name) :
    name ∉ c.decls.map TypeDecl.name := by
  intro hm
  obtain ⟨d, hd, rfl⟩ := List.mem_map.1 hm
  exact h (List.any_eq_true.2 ⟨d, hd, beq_self_eq_true _⟩)

/-- The catalog with a declaration, unless its name is there already. -/
def insert (c : Catalog) (d : TypeDecl) : Catalog :=
  if h : c.hasName d.name then c
  else
    { decls := c.decls ++ [d]
      nodup := by
        rw [List.map_append, List.nodup_append]
        refine ⟨c.nodup, by simp, fun a ha b hb => ?_⟩
        rintro rfl
        simp only [List.map_cons, List.map_nil, List.mem_singleton] at hb
        exact not_mem_of_hasName h (hb ▸ ha) }

/-- The catalog with some declarations, first ones first. -/
def insertAll (c : Catalog) (ds : List TypeDecl) : Catalog := ds.foldl insert c

/-- The catalog with some names, each as a structure without parameters. -/
def insertNames (c : Catalog) (names : List String) : Catalog :=
  c.insertAll (names.map fun name => { name })

/-- The reference is a declared type. -/
def contains (c : Catalog) (r : Reference) : Bool := c.decls.any fun d => r ≈ d.reference

/-- The declarations in the order of their texts. -/
def sorted (c : Catalog) : List TypeDecl := sortBy (fun d => d.reference.render) c.decls

/-- The catalog of some units.  Units are taken in the order of their paths, so the unit with
the least path decides which declaration of a name is kept. -/
def collect (units : List SourceUnit) : Metered Catalog :=
  (sortBy (fun unit => unit.path.toText) units).foldlM
    (fun c unit => do
      Metered.tick .collectTypes
      return c.insertAll unit.types)
    {}

end Catalog

end ConversionClosure
