/-
Which declaration of a name the catalog keeps.

A catalog keeps the declaration of a name that it meets first.  It meets the units in the order of
their paths, and sorting leaves units with one path in the order they came in.  So the declaration
that is kept stands in the first unit that declares the name, where the first one is the one with
the least path, and of several with that path the one in front.

Where all paths are different nothing is left to the order of the units.
-/
import ConversionClosure.Proofs.Collecting
import ConversionClosure.Proofs.Enforcing
import ConversionClosure.Proofs.Paths
import Mathlib.Data.List.Pairwise

namespace ConversionClosure

/-! ### The first value by its key -/

section Least

variable {α κ : Type} [Ord κ] [Std.TransOrd κ] {key : α → κ} {p : α → Bool} {values : List α}
  {a b : α} {i j : Nat}

/-- At the place stands the first of the values that pass a test: every other one that does has a
greater key, or one that is the same and a place behind. -/
structure LeastAt (key : α → κ) (p : α → Bool) (values : List α) (i : Nat) (a : α) : Prop where
  at_place : values[i]? = some a
  passes : p a = true
  least : ∀ j b, values[j]? = some b → p b = true →
    compare (key a) (key b) = .lt ∨ compare (key a) (key b) = .eq ∧ i ≤ j

theorem LeastAt.unique (ha : LeastAt key p values i a) (hb : LeastAt key p values j b) : a = b := by
  have hab := ha.least j b hb.at_place hb.passes
  have hba := hb.least i a ha.at_place ha.passes
  have hswap : compare (key b) (key a) = (compare (key a) (key b)).swap := Std.OrientedCmp.eq_swap
  rw [hswap] at hba
  have hplace : i = j := by
    rcases hab with hlt | ⟨heq, hij⟩
    · simp [hlt] at hba
    · have hji : j ≤ i := by simpa [heq] using hba
      exact Nat.le_antisymm hij hji
  subst hplace
  exact Option.some.inj (ha.at_place.symm.trans hb.at_place)

/-- What a search through the sorted values finds has the least key of all that pass. -/
theorem isLE_of_find?_sortBy (h : (sortBy key values).find? p = some a) (hb : b ∈ values)
    (hpass : p b = true) : (compare (key a) (key b)).isLE = true := by
  obtain ⟨-, before, behind, hsorted, hbefore⟩ := List.find?_eq_some_iff_append.mp h
  have hmem : b ∈ sortBy key values := mem_sortBy.mpr hb
  have hpairwise := sortBy_pairwise key values
  rw [hsorted] at hmem hpairwise
  rcases List.mem_append.mp hmem with hmem | hmem
  · simpa [hpass] using hbefore b hmem
  · rcases List.mem_cons.mp hmem with rfl | hmem
    · rw [Std.ReflOrd.compare_self]
      rfl
    · exact (List.pairwise_cons.mp (List.pairwise_append.mp hpairwise).2.1).1 b hmem

/-- Among the values with its key, it is the first one that passes before sorting too. -/
theorem find?_of_find?_sortBy (h : (sortBy key values).find? p = some a) :
    values.find? (fun b => (compare (key b) (key a) == .eq) = true ∧ p b = true) = some a := by
  obtain ⟨hpass, before, behind, hsorted, hbefore⟩ := List.find?_eq_some_iff_append.mp h
  rw [← List.find?_filter, ← filter_sortBy, List.find?_filter, List.find?_eq_some_iff_append]
  refine ⟨by simp [hpass], before, behind, hsorted, fun b hb => ?_⟩
  have hskipped : p b = false := by simpa using hbefore b hb
  simp [hskipped]

theorem exists_leastAt_of_find? (h : (sortBy key values).find? p = some a) :
    ∃ i, LeastAt key p values i a := by
  obtain ⟨-, i, hi, hat, hfirst⟩ := List.find?_eq_some_iff_getElem.mp (find?_of_find?_sortBy h)
  refine ⟨i, List.getElem?_eq_some_iff.mpr ⟨hi, hat⟩, List.find?_some h, fun j b hb hpass => ?_⟩
  have hle := isLE_of_find?_sortBy h (List.mem_of_getElem? hb) hpass
  cases hcompare : compare (key a) (key b) with
  | lt => exact .inl rfl
  | gt => simp [hcompare] at hle
  | eq =>
      refine .inr ⟨rfl, Nat.le_of_not_lt fun hji => ?_⟩
      obtain ⟨hj, rfl⟩ := List.getElem?_eq_some_iff.mp hb
      have hskipped := hfirst j hji
      simp [hpass, Std.OrientedCmp.eq_comm.mp hcompare] at hskipped

theorem find?_sortBy_iff :
    (sortBy key values).find? p = some a ↔ ∃ i, LeastAt key p values i a := by
  refine ⟨exists_leastAt_of_find?, ?_⟩
  rintro ⟨i, hleast⟩
  have hmem : a ∈ sortBy key values := mem_sortBy.mpr (List.mem_of_getElem? hleast.at_place)
  obtain ⟨b, hb⟩ := Option.isSome_iff_exists.mp
    (List.find?_isSome.mpr ⟨a, hmem, hleast.passes⟩)
  obtain ⟨j, hleast'⟩ := exists_leastAt_of_find? hb
  rw [hb, hleast.unique hleast']

end Least

/-! ### The first declaration of a name -/

/-- The first declaration of a name in a unit. -/
def SourceUnit.declaration? (unit : SourceUnit) (name : String) : Option TypeDecl :=
  unit.types.find? (·.name == name)

namespace Catalog

variable {c : Catalog} {d : TypeDecl} {name : String} {units units' : List SourceUnit}

/-- The declaration that is kept of a name. -/
def declaration? (c : Catalog) (name : String) : Option TypeDecl :=
  c.decls.find? (·.name == name)

theorem declaration?_insert (c : Catalog) (d : TypeDecl) (name : String) :
    (c.insert d).declaration? name =
      (c.declaration? name).or (if d.name == name then some d else none) := by
  unfold insert
  by_cases h : c.hasName d.name = true
  · rw [dif_pos h]
    by_cases hname : d.name = name
    · have hsome : (c.declaration? name).isSome = true := by
        rw [← hname]
        exact List.find?_isSome.mpr (List.any_eq_true.mp h)
      rw [Option.or_of_isSome hsome]
    · simp [hname]
  · rw [dif_neg h]
    show (c.decls ++ [d]).find? (·.name == name) = _
    rw [List.find?_append, List.find?_singleton]
    rfl

theorem declaration?_insertAll (c : Catalog) (ds : List TypeDecl) (name : String) :
    (c.insertAll ds).declaration? name =
      (c.declaration? name).or (ds.find? (·.name == name)) := by
  unfold insertAll
  induction ds generalizing c with
  | nil => simp
  | cons d ds ih =>
      rw [List.foldl_cons, ih, declaration?_insert, Option.or_assoc, List.find?_cons]
      cases d.name == name <;> simp

/-- A name that is there keeps its declaration, and any other one is declared without parameters. -/
theorem declaration?_insertNames (c : Catalog) (names : List String) (name : String) :
    (c.insertNames names).declaration? name =
      (c.declaration? name).or (if name ∈ names then some { name } else none) := by
  have hfind : (names.map fun name : String => ({ name } : TypeDecl)).find? (·.name == name) =
      if name ∈ names then some { name } else none := by
    induction names with
    | nil => rfl
    | cons first names ih =>
        rw [List.map_cons, List.find?_cons, ih]
        by_cases hname : first = name
        · simp [hname]
        · simp [beq_eq_false_iff_ne.mpr hname, Ne.symm hname]
  rw [insertNames, declaration?_insertAll, hfind]

theorem declaration?_foldl (c : Catalog) (units : List SourceUnit) (name : String) :
    (units.foldl (fun c unit => c.insertAll unit.types) c).declaration? name =
      (c.declaration? name).or (units.findSome? (·.declaration? name)) := by
  induction units generalizing c with
  | nil => simp
  | cons unit units ih =>
      rw [List.foldl_cons, ih, declaration?_insertAll, Option.or_assoc, List.findSome?_cons,
        ← SourceUnit.declaration?]
      cases unit.declaration? name <;> simp

/-! ### The first unit that declares a name -/

/-- At the place stands the first unit that declares the name: every other one that does has a
greater path, or the same path and a place behind. -/
structure FirstDeclares (units : List SourceUnit) (name : String) (i : Nat) (unit : SourceUnit) :
    Prop where
  at_place : units[i]? = some unit
  declares : ∃ d ∈ unit.types, d.name = name
  first : ∀ j other, units[j]? = some other → (∃ d ∈ other.types, d.name = name) →
    unit.path.toText < other.path.toText ∨ unit.path.toText = other.path.toText ∧ i ≤ j

theorem isSome_declaration?_iff {unit : SourceUnit} :
    (unit.declaration? name).isSome = true ↔ ∃ d ∈ unit.types, d.name = name := by
  simp [SourceUnit.declaration?, List.find?_isSome]

theorem firstDeclares_iff {i : Nat} {unit : SourceUnit} : FirstDeclares units name i unit ↔
    LeastAt (fun unit => unit.path.toText) (fun unit => (unit.declaration? name).isSome) units i
      unit := by
  have hlt : ∀ s t : String, compare s t = .lt ↔ s < t := fun _ _ => compareOfLessAndEq_eq_lt
  have heq : ∀ s t : String, compare s t = .eq ↔ s = t := fun _ _ => Std.compare_eq_iff_eq
  constructor
  · intro h
    refine ⟨h.at_place, isSome_declaration?_iff.mpr h.declares, fun j other hj hother => ?_⟩
    rw [hlt, heq]
    exact h.first j other hj (isSome_declaration?_iff.mp hother)
  · intro h
    refine ⟨h.at_place, isSome_declaration?_iff.mp h.passes, fun j other hj hother => ?_⟩
    rw [← hlt, ← heq]
    exact h.least j other hj (isSome_declaration?_iff.mpr hother)

/-- The declaration that is met first stands in the first unit with one. -/
theorem findSome?_declaration?_iff : units.findSome? (·.declaration? name) = some d ↔
    ∃ unit, units.find? (fun unit => (unit.declaration? name).isSome) = some unit ∧
      unit.declaration? name = some d := by
  induction units with
  | nil => simp
  | cons unit units ih =>
      rw [List.findSome?_cons, List.find?_cons]
      cases hdeclared : unit.declaration? name with
      | none => simpa using ih
      | some d' => simp [hdeclared]

theorem declaration?_ofUnits_iff : (ofUnits units).declaration? name = some d ↔
    ∃ i unit, FirstDeclares units name i unit ∧ unit.declaration? name = some d := by
  have hfirst : (ofUnits units).declaration? name =
      (sortBy (fun unit => unit.path.toText) units).findSome? (·.declaration? name) :=
    declaration?_foldl {} _ name
  rw [hfirst, findSome?_declaration?_iff]
  simp only [find?_sortBy_iff, ← firstDeclares_iff]
  exact ⟨fun ⟨unit, ⟨i, hi⟩, hd⟩ => ⟨i, unit, hi, hd⟩, fun ⟨i, unit, hi, hd⟩ => ⟨unit, ⟨i, hi⟩, hd⟩⟩

theorem contains_ofUnits_iff {r : Reference} : (ofUnits units).contains r = true ↔
    ∃ unit ∈ units, ∃ d ∈ unit.types, r ≈ .ofSegments [d.name] := by
  rw [contains, List.any_eq_true]
  constructor
  · rintro ⟨d, hd, hr⟩
    obtain ⟨unit, hunit, d', hd', hname⟩ := mem_names_ofUnits.mp (List.mem_map_of_mem hd)
    exact ⟨unit, hunit, d', hd', hname ▸ of_decide_eq_true hr⟩
  · rintro ⟨unit, hunit, d, hd, hr⟩
    obtain ⟨d', hd', hname⟩ := List.mem_map.mp (mem_names_ofUnits.mpr ⟨unit, hunit, d, hd, rfl⟩)
    refine ⟨d', hd', decide_eq_true ?_⟩
    rwa [TypeDecl.reference, hname]

/-- Where all paths are different, the order of the units does not matter. -/
theorem collect_of_perm (hpaths : ∀ unit ∈ units, unit.path.IsNormal)
    (hdiffer : units.Pairwise fun u v => u.path ≠ v.path) (h : units'.Perm units) :
    collect units' = collect units := by
  have hsorted : sortBy (fun unit => unit.path.toText) units =
      sortBy (fun unit => unit.path.toText) units' := by
    refine sortBy_of_perm h.symm fun u hu v hv htext => ?_
    have hsymm : Std.Symm fun u v : SourceUnit => u.path ≠ v.path := ⟨fun _ _ => Ne.symm⟩
    by_contra hne
    exact hdiffer.forall hu hv hne (Path.eq_of_toText_eq (hpaths u hu) (hpaths v hv) htext)
  rw [collect, collect, hsorted]

/-- **The catalog is the union of the units, and the first unit by path decides.**  Its members are
the paths of one declared name each, without arguments.  Of a name it keeps the first declaration in
the first unit that declares the name.  Where all paths are different, units in another order make
up the same catalog; every path is one that some text writes. -/
theorem collect_keeps_first {scope : Scope} {b b' : Budget}
    (h : (collect units).runWith scope b = (.ok c, b')) :
    (∀ r, c.contains r = true ↔ ∃ unit ∈ units, ∃ d ∈ unit.types, r ≈ .ofSegments [d.name]) ∧
    (∀ name d, c.declaration? name = some d ↔
      ∃ i unit, FirstDeclares units name i unit ∧ unit.declaration? name = some d) ∧
    ((∀ unit ∈ units, ∃ text, unit.path = .ofText text) →
      (units.Pairwise fun u v => u.path ≠ v.path) →
      ∀ units', units'.Perm units → (collect units').runWith scope b = (.ok c, b')) := by
  obtain rfl : ofUnits units = c :=
    Except.ok.inj ((does_collect_ofUnits units).eq_of_runWith h)
  refine ⟨fun r => contains_ofUnits_iff, fun name d => declaration?_ofUnits_iff, ?_⟩
  intro hpaths hdiffer units' hperm
  have hnormal : ∀ unit ∈ units, unit.path.IsNormal := by
    intro unit hunit
    obtain ⟨text, htext⟩ := hpaths unit hunit
    exact htext ▸ Path.isNormal_ofText text
  rw [collect_of_perm hnormal hdiffer hperm, h]

/-! Three units, not in the order of their paths, and two of them declare one name: the one that
comes behind by its place is the first by its path. -/

def threeUnits : List SourceUnit :=
  [{ path := .ofText "b.rs", types := [{ name := "A" }, { name := "B" }] },
    { path := .ofText "c.rs" },
    { path := .ofText "./a.rs", types := [{ name := "A", kind := "enum", arity := 1 },
      { name := "A" }] }]

theorem firstDeclares_threeUnits : ∃ unit, FirstDeclares threeUnits "A" 2 unit ∧
    unit.declaration? "A" = some { name := "A", kind := "enum", arity := 1 } := by
  refine ⟨_, ⟨rfl, ⟨_, List.mem_cons_self, rfl⟩, fun j other hother hdeclares => ?_⟩, rfl⟩
  match j with
  | 0 =>
      obtain rfl := Option.some.inj hother
      exact .inl (by decide)
  | 1 =>
      obtain rfl := Option.some.inj hother
      simp at hdeclares
  | 2 =>
      obtain rfl := Option.some.inj hother
      exact .inr ⟨rfl, Nat.le_refl 2⟩

theorem collect_keeps_first_threeUnits : ∃ c b',
    (collect threeUnits.reverse).runWith (.unhurried .catalog) { limit := 10 } = (.ok c, b') ∧
      c.declaration? "A" = some { name := "A", kind := "enum", arity := 1 } ∧
      c.contains { segments := ["B"], lifetime := "'a" } = true ∧
      c.contains { segments := ["C"] } = false := by
  obtain ⟨b', hrun⟩ :=
    (does_collect_ofUnits threeUnits).completes_unhurried .catalog 10 (by decide)
  obtain ⟨hmember, hkept, horder⟩ := collect_keeps_first hrun
  have hpaths : ∀ unit ∈ threeUnits, ∃ text, unit.path = .ofText text := by
    intro unit hunit
    simp only [threeUnits, List.mem_cons, List.not_mem_nil, or_false] at hunit
    rcases hunit with rfl | rfl | rfl
    · exact ⟨_, rfl⟩
    · exact ⟨_, rfl⟩
    · exact ⟨_, rfl⟩
  refine ⟨_, b', horder hpaths (by decide) _ (List.reverse_perm _), ?_, ?_, ?_⟩
  · obtain ⟨unit, hfirst, hdeclared⟩ := firstDeclares_threeUnits
    exact (hkept "A" _).mpr ⟨2, unit, hfirst, hdeclared⟩
  · rw [hmember]
    decide
  · rw [Bool.eq_false_iff, Ne, hmember]
    decide

end Catalog

end ConversionClosure
