/-
Units in another order.

Nothing that a pass finds depends on the order of the units or of what they declare.  Two things
have to be seen for that.  The stages before the closure turn rearranged units into catalogs with
the same names and into graphs with the same edges, in another order.  And the closure looks at a
graph only through sorted lists.

The second needs the texts of the accepted types to tell them apart, since a list is sorted by texts
and equal ones are left in the order they come in.
-/
import ConversionClosure.Proofs.Staging

namespace ConversionClosure

variable {units units' : List SourceUnit} {name : String}

/-! ### Rearranged units -/

namespace SourceUnit

/-- The two units have one path, and they declare the same in some order. -/
structure Rearranges (unit unit' : SourceUnit) : Prop where
  path : unit.path = unit'.path
  types : unit.types.Perm unit'.types
  conversions : unit.conversions.Perm unit'.conversions
  skipped : unit.skipped.Perm unit'.skipped

/-- The units are the same up to their order and to the order of what they declare. -/
def Rearranged (units units' : List SourceUnit) : Prop :=
  ∃ mid, units.Perm mid ∧ List.Forall₂ Rearranges mid units'

namespace Rearranged

theorem flatMap {β : Type} {f : SourceUnit → List β} (h : Rearranged units units')
    (hf : ∀ unit unit', Rearranges unit unit' → (f unit).Perm (f unit')) :
    (units.flatMap f).Perm (units'.flatMap f) := by
  obtain ⟨mid, hperm, hall⟩ := h
  refine (hperm.flatMap_right f).trans ?_
  clear hperm
  induction hall with
  | nil => exact List.Perm.refl _
  | cons hunit _ ih =>
      rw [List.flatMap_cons, List.flatMap_cons]
      exact (hf _ _ hunit).append ih

theorem length_eq (h : Rearranged units units') : units.length = units'.length := by
  obtain ⟨mid, hperm, hall⟩ := h
  exact hperm.length_eq.trans hall.length_eq

/-- The registry makes the same charges for both, since all of them are alike. -/
theorem charges_eq (h : Rearranged units units') :
    units.flatMap Registry.charges = units'.flatMap Registry.charges := by
  have halike : ∀ us : List SourceUnit, ∀ site ∈ us.flatMap Registry.charges,
      site = .buildGraph := by
    intro us site hsite
    obtain ⟨unit, -, hcharge⟩ := List.mem_flatMap.mp hsite
    exact List.eq_of_mem_replicate hcharge
  have hperm : (units.flatMap Registry.charges).Perm (units'.flatMap Registry.charges) :=
    h.flatMap fun unit unit' hunit => by
      rw [Registry.charges, Registry.charges, hunit.conversions.length_eq]
  rw [List.eq_replicate_of_mem (halike units), List.eq_replicate_of_mem (halike units'),
    hperm.length_eq]

theorem acceptedPairs (h : Rearranged units units') (name : String) :
    (Registry.acceptedPairs name units).Perm (Registry.acceptedPairs name units') :=
  h.flatMap fun _ _ hunit => hunit.conversions.filterMap _

theorem droppedDecls (h : Rearranged units units') (name : String) :
    (Registry.droppedDecls name units).Perm (Registry.droppedDecls name units') := by
  refine h.flatMap fun unit unit' hunit => ?_
  rw [hunit.path]
  exact hunit.conversions.filterMap _

theorem isSound (h : Rearranged units units') (hsound : ∀ unit ∈ units, unit.IsSound) :
    ∀ unit ∈ units', unit.IsSound := by
  have hconversions : (units.flatMap (·.conversions)).Perm (units'.flatMap (·.conversions)) :=
    h.flatMap fun _ _ hunit => hunit.conversions
  intro unit' hunit' d hd
  have hmem := hconversions.mem_iff.mpr (List.mem_flatMap.mpr ⟨unit', hunit', hd⟩)
  obtain ⟨unit, hunit, hd⟩ := List.mem_flatMap.mp hmem
  exact hsound unit hunit d hd

theorem mem_names (h : Rearranged units units') (name : String) :
    (∃ unit ∈ units, ∃ d ∈ unit.types, d.name = name) ↔
      ∃ unit ∈ units', ∃ d ∈ unit.types, d.name = name := by
  have hnames : (units.flatMap fun unit => unit.types.map TypeDecl.name).Perm
      (units'.flatMap fun unit => unit.types.map TypeDecl.name) :=
    h.flatMap fun _ _ hunit => hunit.types.map _
  simpa using hnames.mem_iff

theorem warningsOf (h : Rearranged units units') (edges : List Synthesized) :
    (Report.warningsOf units edges).Perm (Report.warningsOf units' edges) := by
  refine List.Perm.append_right _ (h.flatMap fun unit unit' hunit => ?_)
  rw [hunit.path]
  exact hunit.skipped.map _

end Rearranged

end SourceUnit

/-! ### Graphs with the same edges -/

namespace Graph

variable {g g' : Graph} (h : g.edges.Perm g'.edges)
  (htell : ∀ r ∈ g.references, ∀ s ∈ g.references, r.render = s.render → r = s)
include h htell

theorem sortedEdges_of_perm : g.sortedEdges = g'.sortedEdges := by
  refine sortBy_of_perm h ?_
  intro e he f hf hkey
  rw [Edge.key, Edge.key, List.cons.injEq, List.cons.injEq] at hkey
  obtain ⟨hes, het⟩ := mem_references he
  obtain ⟨hfs, hft⟩ := mem_references hf
  exact Edge.pair_inj (Prod.ext (htell _ hes _ hfs hkey.1) (htell _ het _ hft hkey.2.1))

theorem successors_of_perm : g.successors = g'.successors := by
  funext a
  refine sortBy_of_perm ((h.filter _).map _) ?_
  intro r hr s hs hrender
  obtain ⟨e, he, rfl⟩ := List.mem_map.mp hr
  obtain ⟨f, hf, rfl⟩ := List.mem_map.mp hs
  exact htell _ (mem_references (List.mem_filter.mp he).1).2 _
    (mem_references (List.mem_filter.mp hf).1).2 hrender

end Graph

namespace Closure

/-- **The closure depends on nothing but which edges there are and which names are declared.** -/
theorem synthesize_congr {g g' : Graph} {d d' : Catalog} (h : g.edges.Perm g'.edges)
    (htell : ∀ r ∈ g.references, ∀ s ∈ g.references, r.render = s.render → r = s)
    (hd : ∀ name, name ∈ d.names ↔ name ∈ d'.names) : synthesize g d = synthesize g' d' := by
  have htexts : g.hasTexts = g'.hasTexts := by
    rw [Bool.eq_iff_iff, Graph.hasTexts_iff, Graph.hasTexts_iff]
    exact forall_congr' fun e => by rw [h.mem_iff]
  cases hcase : g.hasTexts with
  | true =>
      rw [synthesize_of_hasTexts hcase, synthesize_of_hasTexts (htexts ▸ hcase),
        Graph.sortedEdges_of_perm h htell, Graph.successors_of_perm h htell,
        Catalog.contains_congr hd]
  | false =>
      rw [synthesize_of_not_hasTexts hcase, synthesize_of_not_hasTexts (htexts ▸ hcase)]

end Closure

/-! ### Two passes -/

/-- Two reports show the same data and have the same output, up to the order of the warnings. -/
structure Report.Agrees (r r' : Report) : Prop where
  toValue : { r with warnings := [] }.toValue = { r' with warnings := [] }.toValue
  output : r.output = r'.output
  warnings : r.warnings.Perm r'.warnings

namespace Pass

variable {settings : Settings}

/-- Reports on the same closure agree when they have the same names, edges and dropped declarations
in any order. -/
theorem agrees {d d' : Catalog} {g g' : Graph} {edges : List Synthesized}
    {exclusions : List Exclusion} {dropped dropped' : List Dropped} {emission : Emission}
    {warnings warnings' : List String} (hnames : ∀ name, name ∈ d.names ↔ name ∈ d'.names)
    (hedges : g.sortedEdges = g'.sortedEdges) (hdropped : dropped.Perm dropped')
    (hwarnings : warnings.Perm warnings') :
    Report.Agrees ⟨d, g, edges, exclusions, sortBy Dropped.key dropped, emission, warnings⟩
      ⟨d', g', edges, exclusions, sortBy Dropped.key dropped', emission, warnings'⟩ := by
  have hkeys := map_sortBy_of_perm (hdropped.map Dropped.key)
  have hshown : ∀ r s : Dropped, r.key = s.key →
      (Value.table [("path", .text r.path.toText), ("source", .text r.source.render),
        ("target", .text r.target.render), ("reason", .text r.reason.text)]) =
      .table [("path", .text s.path.toText), ("source", .text s.source.render),
        ("target", .text s.target.render), ("reason", .text s.reason.text)] := by
    intro r s hkey
    simp only [Dropped.key, List.cons.injEq, and_true] at hkey
    rw [hkey.1, hkey.2.1, hkey.2.2.1, hkey.2.2.2]
  refine ⟨?_, rfl, hwarnings⟩
  unfold Report.toValue
  simp only [Catalog.sorted_texts hnames, hedges,
    map_eq_of_map_eq (fun r _ s _ => hshown r s) hkeys]

/-- **A pass does not depend on the order of its input.**  By the same clock, it gives the same
report up to the order of the warnings, or ends with the same time-out. -/
theorem run_rearranged (settings : Settings) (clock : Clock)
    (hread : ∀ unit ∈ units, unit.IsRead) (hunits : SourceUnit.Rearranged units units')
    (hlimit : 0 < settings.workLimit) (htime : 0 ≤ settings.timeoutMs)
    (htell : Registry.TextsTell settings.traitName units) :
    (∃ r r', run settings units clock = .ok r ∧ run settings units' clock = .ok r' ∧
      r.Agrees r') ∨
      ∃ t, run settings units clock = .error (.timeout t) ∧
        run settings units' clock = .error (.timeout t) := by
  have hsound : ∀ unit ∈ units, unit.IsSound := fun unit hunit => (hread unit hunit).isSound
  obtain ⟨d, hcollect, hnames⟩ := Catalog.does_collect units
  obtain ⟨d', hcollect', hnames'⟩ := Catalog.does_collect units'
  obtain ⟨g, hbuild, hg⟩ := Registry.does_build hsound settings.traitName
  obtain ⟨g', hbuild', hg'⟩ := Registry.does_build (hunits.isSound hsound) settings.traitName
  -- both catalogs and both graphs hold the same
  have hd : ∀ name, name ∈ d.names ↔ name ∈ d'.names := by
    intro name
    rw [hnames, hnames', hunits.mem_names]
  have hperm : g.edges.Perm g'.edges :=
    Registry.edges_perm hsound htell hg (hg'.of_perm (hunits.acceptedPairs _).symm)
  have htexts : ∀ r ∈ g.references, ∀ s ∈ g.references, r.render = s.render → r = s :=
    fun r hr s hs => Registry.isEnd_eq hsound htell (Registry.isEnd_of_mem_references hg hr)
      (Registry.isEnd_of_mem_references hg hs)
  -- so both have one closure, and what is emitted comes from the closure alone
  have href := Registry.sound_of_mem_references hsound hg
  obtain ⟨closing, c, hclosure, hsettled⟩ :=
    Closure.does_synthesize d (Graph.hasTexts_of_sound href)
  have hclosure' := Closure.synthesize_congr hperm htexts hd ▸ hclosure
  have hordered := requireOrdered_of_settled hsettled "build_transitivity.edges"
  have hplan := @Emission.does_plan settings.style _ fun e he =>
    (hsettled.isSound href he).isWritable
  rw [hunits.length_eq] at hcollect
  rw [hunits.charges_eq] at hbuild
  rw [run_eq hlimit htime, run_eq hlimit htime]
  rcases (performs_stages hcollect hbuild hclosure hordered hplan).both
    (performs_stages hcollect' hbuild' hclosure' hordered hplan) settings.budget with
    ⟨hr, hr'⟩ | htimeout
  · refine Or.inl ⟨_, _, hr, hr', ?_⟩
    exact agrees hd (Graph.sortedEdges_of_perm hperm htexts) (hunits.droppedDecls _)
      (hunits.warningsOf _)
  · exact Or.inr htimeout

/-- The file with the first half of a conversion. -/
def firstHalf : SourceUnit where
  path := .ofText "a.rs"
  types := [{ name := "A" }, { name := "B" }]
  conversions := [{
    trait := { segments := ["From"], args := [.ofSegments ["A"]] }
    source := .ofSegments ["A"]
    target := .ofSegments ["B"] }]

/-- The file with the second half. -/
def secondHalf : SourceUnit where
  path := .ofText "b.rs"
  types := [{ name := "C" }]
  conversions := [{
    trait := { segments := ["From"], args := [.ofSegments ["B"]] }
    source := .ofSegments ["B"]
    target := .ofSegments ["C"] }]

theorem isRead_halves : ∀ unit ∈ [firstHalf, secondHalf], unit.IsRead := by
  have hfirst : Format.parseSource (.ofText "a.rs")
      "struct A;\nstruct B;\nimpl From<A> for B \x7b\x7d" = .ok firstHalf := by decide +kernel
  have hsecond : Format.parseSource (.ofText "b.rs")
      "struct C;\nimpl From<B> for C \x7b\x7d" = .ok secondHalf := by decide +kernel
  intro unit hunit
  rcases List.mem_pair.mp hunit with rfl | rfl
  · exact Format.isRead_of_parseSource hfirst
  · exact Format.isRead_of_parseSource hsecond

theorem textsTell_halves :
    Registry.TextsTell ConversionDecl.defaultTrait [firstHalf, secondHalf] := by
  have hpairs : Registry.acceptedPairs ConversionDecl.defaultTrait [firstHalf, secondHalf] =
      [(.ofSegments ["A"], .ofSegments ["B"]), (.ofSegments ["B"], .ofSegments ["C"])] := by
    decide +kernel
  have hends : ∀ r, Registry.IsEnd ConversionDecl.defaultTrait [firstHalf, secondHalf] r →
      r ∈ ["A", "B", "C"].map fun name => Reference.ofSegments [name] := by
    intro r hr
    obtain ⟨p, hp, hend⟩ := hr
    rw [hpairs] at hp
    rcases List.mem_pair.mp hp with rfl | rfl <;> rcases hend with rfl | rfl <;> simp
  have htell : ∀ r ∈ ["A", "B", "C"].map fun name => Reference.ofSegments [name],
      ∀ s ∈ ["A", "B", "C"].map fun name => Reference.ofSegments [name],
        (r ≈ s ↔ r.render = s.render) := by decide +kernel
  exact fun r s hr hs => htell r (hends r hr) s (hends s hs)

/-- The halves in the other order, and the types of the first one as well. -/
theorem run_rearranged_halves :
    (∃ r r', run {} [firstHalf, secondHalf] = .ok r ∧
      run {} [secondHalf, { firstHalf with types := [{ name := "B" }, { name := "A" }] }] = .ok r' ∧
      r.Agrees r') ∨
      ∃ t, run {} [firstHalf, secondHalf] = .error (.timeout t) ∧
        run {} [secondHalf, { firstHalf with types := [{ name := "B" }, { name := "A" }] }] =
          .error (.timeout t) := by
  have hunits : SourceUnit.Rearranged [firstHalf, secondHalf]
      [secondHalf, { firstHalf with types := [{ name := "B" }, { name := "A" }] }] := by
    refine ⟨[secondHalf, firstHalf], List.Perm.swap _ _ _, ?_⟩
    refine .cons ⟨rfl, .refl _, .refl _, .refl _⟩ (.cons ⟨rfl, ?_, .refl _, .refl _⟩ .nil)
    exact List.Perm.swap _ _ _
  exact run_rearranged {} .still isRead_halves hunits (by decide) (by decide) textsTell_halves

end Pass

end ConversionClosure
