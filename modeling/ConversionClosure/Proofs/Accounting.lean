/-
What the registry makes of each declaration.

No declaration gets lost in the registry, and none counts twice.  A declaration of another trait
leaves no trace.  One of the conversion trait gives an edge, or it is dropped with the first reason
that applies, and the dropped ones stand in an order that does not depend on where they came from.
-/
import ConversionClosure.Proofs.Rearranging

namespace ConversionClosure

variable {name : String} {units units' : List SourceUnit} {d : ConversionDecl}

namespace DropReason

/-- The reasons in the order in which they are looked for. -/
def inOrder : List DropReason := [genericTarget, genericSource, selfLoop]

/-- The reason applies to a declaration: its target has arguments, or its source, with the target in
the place of `Self`, mentions a parameter or is the target. -/
def applies (d : ConversionDecl) : DropReason → Bool
  | genericTarget => d.target.isGeneric
  | genericSource => (d.source.replaceSelf d.target).mentions d.typeParams
  | selfLoop => d.source.replaceSelf d.target ≈ d.target

/-- The first reason that applies to a declaration, if one does. -/
def first? (d : ConversionDecl) : Option DropReason := inOrder.find? (applies d)

end DropReason

namespace ConversionDecl

/-- A declaration is rejected with the first reason that applies. -/
theorem normalize_eq (d : ConversionDecl) : d.normalize =
    match DropReason.first? d with
    | some reason => .error reason
    | none => .ok (d.source.replaceSelf d.target, d.target) := by
  unfold normalize DropReason.first? DropReason.inOrder
  simp only [List.find?, DropReason.applies]
  cases d.target.isGeneric with
  | true => rfl
  | false =>
      cases (d.source.replaceSelf d.target).mentions d.typeParams with
      | true => rfl
      | false =>
          by_cases hloop : d.source.replaceSelf d.target ≈ d.target
          · rw [decide_eq_true hloop, if_neg Bool.false_ne_true, if_neg Bool.false_ne_true,
              if_pos hloop]
          · rw [decide_eq_false hloop, if_neg Bool.false_ne_true, if_neg Bool.false_ne_true,
              if_neg hloop]

/-- The declaration is one of the conversion trait: its trait is a path that ends with the name. -/
def IsOf (d : ConversionDecl) (name : String) : Prop :=
  d.trait.isPath = true ∧ d.trait.segments.getLast? = some name

instance (d : ConversionDecl) (name : String) : Decidable (d.IsOf name) :=
  inferInstanceAs (Decidable (_ ∧ _))

theorem isConversion_iff : d.isConversion name = true ↔ d.IsOf name := by
  rw [IsOf, isConversion, Reference.endsWith, Bool.and_eq_true, Bool.and_eq_true, List.isSuffixOf_iff_suffix]
  simp only [List.isEmpty_cons, Bool.not_false, and_true]
  refine and_congr_right fun _ => ⟨?_, ?_⟩
  · rintro ⟨before, hsegments⟩
    rw [← hsegments, List.getLast?_concat]
  · intro hlast
    obtain ⟨before, hsegments⟩ := List.getLast?_eq_some_iff.mp hlast
    exact ⟨before, hsegments.symm⟩

end ConversionDecl

namespace Registry

/-- One record for each declaration of the conversion trait to which a reason applies: the path of
its unit, both ends as they were written, and the first reason. -/
def records (name : String) (units : List SourceUnit) : List Dropped :=
  units.flatMap fun unit =>
    (unit.conversions.filter fun d => d.IsOf name).filterMap fun d =>
      (DropReason.first? d).map fun reason => ⟨unit.path, d.source, d.target, reason⟩

theorem droppedDecls_eq (name : String) (units : List SourceUnit) :
    droppedDecls name units = records name units := by
  unfold droppedDecls records
  congr 1
  funext unit
  rw [List.filterMap_filter]
  congr 1
  funext d
  unfold ConversionDecl.dropped?
  simp only [d.normalize_eq, ConversionDecl.isConversion_iff, decide_eq_true_eq]
  cases DropReason.first? d <;> rfl

theorem mem_acceptedPairs_iff {p : Reference × Reference} : p ∈ acceptedPairs name units ↔
    ∃ unit ∈ units, ∃ d ∈ unit.conversions, d.IsOf name ∧ d.normalize = .ok p := by
  rw [mem_acceptedPairs]
  refine exists_congr fun unit => and_congr_right fun _ => exists_congr fun d =>
    and_congr_right fun _ => ?_
  rw [← ConversionDecl.isConversion_iff]
  unfold ConversionDecl.accepted?
  cases d.isConversion name <;> cases d.normalize <;> simp [Except.toOption]

/-! ### Other traits -/

/-- The unit without the declarations of other traits. -/
def recognized (name : String) (unit : SourceUnit) : SourceUnit :=
  { unit with conversions := unit.conversions.filter fun d => d.IsOf name }

theorem acceptedPairs_recognized (name : String) (units : List SourceUnit) :
    acceptedPairs name (units.map (recognized name)) = acceptedPairs name units := by
  unfold acceptedPairs
  rw [List.flatMap_map]
  congr 1
  funext unit
  rw [recognized, List.filterMap_filter]
  congr 1
  funext d
  unfold ConversionDecl.accepted?
  simp only [ConversionDecl.isConversion_iff, decide_eq_true_eq]
  split <;> rfl

theorem records_recognized (name : String) (units : List SourceUnit) :
    records name (units.map (recognized name)) = records name units := by
  unfold records
  rw [List.flatMap_map]
  congr 1
  funext unit
  simp only [recognized, List.filter_filter, Bool.and_self]

/-! ### The account -/

/-- The registry accounts for the declarations of some units. -/
structure Accounts (name : String) (units : List SourceUnit) (registry : Registry) : Prop where
  /-- Edges join the types of the accepted declarations and no others. -/
  adj_iff : ∀ x y, registry.graph.Adj x y ↔ ∃ unit ∈ units, ∃ d ∈ unit.conversions,
    d.IsOf name ∧ ∃ p, d.normalize = .ok p ∧ (p.1.type, p.2.type) = (x, y)
  /-- Each edge is what an accepted declaration gives. -/
  edge_mem : ∀ e ∈ registry.graph.edges, ∃ unit ∈ units, ∃ d ∈ unit.conversions,
    d.IsOf name ∧ d.normalize = .ok e.pair
  dropped : registry.dropped.Perm (records name units)
  sorted : registry.dropped.Pairwise fun a b => (compare a.key b.key).isLE = true

theorem accounts_of_joins {g : Graph} (hg : g.Joins (acceptedPairs name units)) :
    Accounts name units ⟨g, sortBy Dropped.key (records name units)⟩ where
  adj_iff x y := by
    rw [hg.adj_iff]
    constructor
    · rintro ⟨p, hp, hends⟩
      obtain ⟨unit, hunit, d, hd, hname, hnormalize⟩ := mem_acceptedPairs_iff.mp hp
      exact ⟨unit, hunit, d, hd, hname, p, hnormalize, hends⟩
    · rintro ⟨unit, hunit, d, hd, hname, p, hnormalize, hends⟩
      exact ⟨p, mem_acceptedPairs_iff.mpr ⟨unit, hunit, d, hd, hname, hnormalize⟩, hends⟩
  edge_mem e he := mem_acceptedPairs_iff.mp (hg.pair_mem e he)
  dropped := sortBy_perm _ _
  sorted := sortBy_pairwise _ _

/-- What is dropped is shown the same way for units in another order. -/
theorem rendered_dropped_of_rearranged (h : SourceUnit.Rearranged units units') (name : String) :
    (sortBy Dropped.key (records name units)).map Dropped.render =
      (sortBy Dropped.key (records name units')).map Dropped.render := by
  have hshown : ∀ a b : Dropped, a.key = b.key → a.render = b.render := by
    intro a b hkey
    simp only [Dropped.key, List.cons.injEq, and_true] at hkey
    rw [Dropped.render, Dropped.render, Edge.render, Edge.render, hkey.1, hkey.2.1, hkey.2.2.1,
      hkey.2.2.2]
  rw [← droppedDecls_eq, ← droppedDecls_eq]
  exact map_eq_of_map_eq (fun a _ b _ => hshown a b)
    (map_sortBy_of_perm ((h.droppedDecls name).map Dropped.key))

/-- **The registry accounts for every declaration.** -/
theorem build_accounts (hsound : ∀ unit ∈ units, unit.IsSound) (name : String) :
    ∃ registry, (build units name).Does (units.flatMap charges) (.ok registry) ∧
      (∀ scope b, ((build units name).runWith scope b).1 = .ok registry ∨
        ∃ t, ((build units name).runWith scope b).1 = .error (.timeout t)) ∧
      Accounts name units registry ∧
      (build (units.map (recognized name)) name).Does
        ((units.map (recognized name)).flatMap charges) (.ok registry) ∧
      ∀ units', SourceUnit.Rearranged units units' → ∃ registry',
        (build units' name).Does (units'.flatMap charges) (.ok registry') ∧
        Accounts name units' registry' ∧
        registry'.dropped.map Dropped.render = registry.dropped.map Dropped.render := by
  obtain ⟨g, hg, hjoins⟩ := exists_ofPairs hsound name
  have hdoes := does_build_of_ofPairs hsound name hg
  have hrecognized : ∀ unit ∈ units.map (recognized name), unit.IsSound := by
    intro unit hunit d hd
    obtain ⟨unit, hmem, rfl⟩ := List.mem_map.mp hunit
    exact hsound unit hmem d (List.mem_filter.mp hd).1
  have htrace := does_build_of_ofPairs hrecognized name (acceptedPairs_recognized name units ▸ hg)
  rw [droppedDecls_eq] at hdoes htrace
  rw [records_recognized] at htrace
  refine ⟨_, hdoes, fun scope b => (hdoes scope).fst_eq_or_timeout b, accounts_of_joins hjoins,
    htrace, ?_⟩
  intro units' hunits
  obtain ⟨g', hbuild, hjoins'⟩ := does_build (hunits.isSound hsound) name
  rw [droppedDecls_eq] at hbuild
  exact ⟨_, hbuild, accounts_of_joins hjoins', (rendered_dropped_of_rearranged hunits name).symm⟩

/-- A file with a conversion, with two that are dropped, and with one of another trait. -/
def mixed : SourceUnit where
  path := .ofText "a.rs"
  conversions := [
    { trait := { segments := ["From"], args := [.ofSegments ["A"]] }
      source := .ofSegments ["A"], target := .ofSegments ["B"] },
    { trait := { segments := ["From"], args := [.ofSegments ["T"]] }
      source := .ofSegments ["T"], target := .ofSegments ["B"], params := ["T"] },
    { trait := { segments := ["From"], args := [.ofSegments ["Self"]] }
      source := .ofSegments ["Self"], target := .ofSegments ["B"] },
    { trait := { segments := ["Into"], args := [.ofSegments ["C"]] }
      source := .ofSegments ["C"], target := .ofSegments ["B"] }]

theorem isSound_mixed : ∀ unit ∈ [mixed], unit.IsSound := by
  have hparse : Format.parseSource (.ofText "a.rs")
      "impl From<A> for B \x7b\x7d impl<T> From<T> for B \x7b\x7d impl From<Self> for B \x7b\x7d
      impl Into<C> for B \x7b\x7d" = .ok mixed := by decide +kernel
  intro unit hunit
  obtain rfl := List.mem_singleton.mp hunit
  exact (Format.isRead_of_parseSource hparse).isSound

/-- In the file, one declaration gives an edge, and two are dropped for different reasons. -/
theorem build_accounts_mixed :
    ∃ registry, (build [mixed] "From").Does (List.replicate 5 .buildGraph) (.ok registry) ∧
      registry.graph.Adj (Reference.ofSegments ["A"]).type (Reference.ofSegments ["B"]).type ∧
      registry.dropped.Perm [
        ⟨.ofText "a.rs", .ofSegments ["T"], .ofSegments ["B"], .genericSource⟩,
        ⟨.ofText "a.rs", .ofSegments ["Self"], .ofSegments ["B"], .selfLoop⟩] := by
  obtain ⟨registry, hdoes, -, haccounts, -⟩ := build_accounts isSound_mixed "From"
  have hrecords : records "From" [mixed] =
      [⟨.ofText "a.rs", .ofSegments ["T"], .ofSegments ["B"], .genericSource⟩,
        ⟨.ofText "a.rs", .ofSegments ["Self"], .ofSegments ["B"], .selfLoop⟩] := by decide +kernel
  refine ⟨registry, hdoes, (haccounts.adj_iff _ _).mpr ?_, hrecords ▸ haccounts.dropped⟩
  exact ⟨mixed, by simp, _, List.mem_cons_self, by decide, (.ofSegments ["A"], .ofSegments ["B"]),
    by decide +kernel, rfl⟩

end Registry

end ConversionClosure
