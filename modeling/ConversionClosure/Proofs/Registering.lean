/-
The registry of some declarations.

What becomes of a declaration depends on nothing but itself, so the registry comes from two lists
with one part for each declaration: the pairs that are accepted and the declarations that are
dropped.  Where the texts of the accepted types tell them apart, each accepted pair is an edge as it
stands.
-/
import ConversionClosure.Proofs.Emitting
import ConversionClosure.Proofs.Folding
import ConversionClosure.Proofs.Units
import ConversionClosure.Registry

namespace ConversionClosure

variable {name : String} {units : List SourceUnit}

namespace ConversionDecl

variable {d : ConversionDecl}

/-- A declaration whose ends are sound is settled. -/
theorem IsSound.isSettled (h : d.IsSound) : d.isSettled = true := by
  have hsource := (h.source.replaceSelf h.target).settlesMention d.typeParams
  rw [ConversionDecl.isSettled, h.target.settlesGeneric, hsource]
  simp

/-- The two ends of a conversion, if it is accepted. -/
def accepted? (d : ConversionDecl) (name : String) : Option (Reference × Reference) :=
  if d.isConversion name then d.normalize.toOption else none

/-- The declaration as it is dropped, if it is a conversion and not accepted. -/
def dropped? (d : ConversionDecl) (name : String) (path : Path) : Option Dropped :=
  if d.isConversion name then
    match d.normalize with
    | .ok _ => none
    | .error reason => some ⟨path, d.source, d.target, reason⟩
  else none

theorem of_normalize {p : Reference × Reference} (h : d.normalize = .ok p) :
    p = (d.source.replaceSelf d.target, d.target) ∧ ¬ p.1 ≈ p.2 := by
  simp only [normalize] at h
  split at h
  · cases h
  split at h
  · cases h
  split at h
  · cases h
  · rename_i hdistinct
    cases h
    exact ⟨rfl, hdistinct⟩

theorem normalize_of_accepted? {p : Reference × Reference} (h : d.accepted? name = some p) :
    d.normalize = .ok p := by
  unfold accepted? at h
  split at h
  · cases hnormalize : d.normalize with
    | error reason => simp [hnormalize, Except.toOption] at h
    | ok q =>
        obtain rfl : q = p := by simpa [hnormalize, Except.toOption] using h
        rfl
  · cases h

/-- An accepted declaration gives its source, with the target in the place of `Self`, and its
target. -/
theorem eq_of_accepted? {p : Reference × Reference} (h : d.accepted? name = some p) :
    p = (d.source.replaceSelf d.target, d.target) := (of_normalize (normalize_of_accepted? h)).1

/-- The ends of an accepted pair are sound, and they are different types. -/
theorem IsSound.of_accepted? {p : Reference × Reference} (h : d.IsSound)
    (hp : d.accepted? name = some p) : p.1.Sound true ∧ p.2.Sound false ∧ ¬ p.1 ≈ p.2 := by
  obtain ⟨rfl, hdistinct⟩ := of_normalize (normalize_of_accepted? hp)
  exact ⟨h.source.replaceSelf h.target, h.target, hdistinct⟩

/-- A declaration is dropped as it was written. -/
theorem of_dropped? {path : Path} {r : Dropped} (h : d.dropped? name path = some r) :
    r.source = d.source ∧ r.target = d.target := by
  unfold dropped? at h
  split at h
  · split at h
    · cases h
    · cases h
      exact ⟨rfl, rfl⟩
  · cases h

end ConversionDecl

namespace Registry

/-- The pairs that are accepted, in the order of their declarations. -/
def acceptedPairs (name : String) (units : List SourceUnit) : List (Reference × Reference) :=
  units.flatMap fun unit => unit.conversions.filterMap fun d => d.accepted? name

/-- The declarations that are dropped, in their order. -/
def droppedDecls (name : String) (units : List SourceUnit) : List Dropped :=
  units.flatMap fun unit => unit.conversions.filterMap fun d => d.dropped? name unit.path

theorem mem_acceptedPairs {p : Reference × Reference} : p ∈ acceptedPairs name units ↔
    ∃ unit ∈ units, ∃ d ∈ unit.conversions, d.accepted? name = some p := by
  simp only [acceptedPairs, List.mem_flatMap, List.mem_filterMap]

theorem mem_droppedDecls {r : Dropped} : r ∈ droppedDecls name units ↔
    ∃ unit ∈ units, ∃ d ∈ unit.conversions, d.dropped? name unit.path = some r := by
  simp only [droppedDecls, List.mem_flatMap, List.mem_filterMap]

/-- The charges for one unit: one for the unit and one for each of its declarations. -/
def charges (unit : SourceUnit) : List Site :=
  List.replicate (1 + unit.conversions.length) .buildGraph

/-! ### The tally -/

namespace Tally

/-- The tally with some more pairs and dropped declarations. -/
def append (t : Tally) (pairs : List (Reference × Reference)) (dropped : List Dropped) : Tally :=
  ⟨t.pairs ++ pairs, t.dropped ++ dropped⟩

theorem append_append (t : Tally) (pairs pairs' : List (Reference × Reference))
    (dropped dropped' : List Dropped) : (t.append pairs dropped).append pairs' dropped' =
      t.append (pairs ++ pairs') (dropped ++ dropped') := by
  simp [append]

theorem foldl_append {γ : Type} (pairs : γ → List (Reference × Reference))
    (dropped : γ → List Dropped) (as : List γ) (t : Tally) :
    as.foldl (fun t a => t.append (pairs a) (dropped a)) t =
      t.append (as.flatMap pairs) (as.flatMap dropped) := by
  induction as generalizing t with
  | nil => simp [append]
  | cons a as ih => rw [List.foldl_cons, ih, append_append, List.flatMap_cons, List.flatMap_cons]

theorem does_declare (name : String) {d : ConversionDecl} (h : d.IsSound) (path : Path)
    (t : Tally) : (t.declare name path d).Does [.buildGraph]
      (.ok (t.append (d.accepted? name).toList (d.dropped? name path).toList)) := by
  have hverdict : d.verdict = .ok d.normalize := by
    rw [ConversionDecl.verdict, h.isSettled]
    rfl
  have hdone : (t.append (d.accepted? name).toList (d.dropped? name path).toList) =
      if d.isConversion name then
        match d.normalize with
        | .ok pair => { t with pairs := t.pairs ++ [pair] }
        | .error reason => { t with dropped := t.dropped ++ [⟨path, d.source, d.target, reason⟩] }
      else t := by
    unfold ConversionDecl.accepted? ConversionDecl.dropped? append
    split
    · cases d.normalize <;> simp [Except.toOption]
    · simp
  rw [hdone, ← List.append_nil [Site.buildGraph]]
  refine (Metered.Does.tick _).bind ?_
  split
  · rw [hverdict]
    cases d.normalize with
    | ok pair => exact Metered.Does.pure _
    | error reason => exact Metered.Does.pure _
  · exact Metered.Does.pure _

theorem does_declareUnit (name : String) {unit : SourceUnit} (h : unit.IsSound) (t : Tally) :
    (t.declareUnit name unit).Does (charges unit)
      (.ok (t.append (unit.conversions.filterMap fun d => d.accepted? name)
        (unit.conversions.filterMap fun d => d.dropped? name unit.path))) := by
  have hfold := Metered.Does.foldlM (fun d hd s => does_declare name (h d hd) unit.path s) t
  rw [foldl_append, ← List.filterMap_eq_flatMap_toList, ← List.filterMap_eq_flatMap_toList,
    ← List.map_eq_flatMap, List.map_const'] at hfold
  rw [charges, ← List.replicate_append_replicate]
  exact (Metered.Does.tick _).bind hfold

theorem does_foldlM (name : String) (h : ∀ unit ∈ units, unit.IsSound) :
    (units.foldlM (declareUnit name) {}).Does (units.flatMap charges)
      (.ok ⟨acceptedPairs name units, droppedDecls name units⟩) := by
  have hfold := Metered.Does.foldlM (fun unit hunit t => does_declareUnit name (h unit hunit) t) {}
  rw [foldl_append] at hfold
  exact hfold

end Tally

end Registry

/-- The edges of the graph are some of the pairs, and there is one for every pair. -/
structure Graph.Joins (g : Graph) (pairs : List (Reference × Reference)) : Prop where
  pair_mem : ∀ e ∈ g.edges, e.pair ∈ pairs
  exists_edge : ∀ p ∈ pairs, ∃ e ∈ g.edges, e.ends = (p.1.type, p.2.type)

theorem Graph.Joins.of_perm {g : Graph} {pairs pairs' : List (Reference × Reference)}
    (h : g.Joins pairs) (hpairs : pairs.Perm pairs') : g.Joins pairs' :=
  ⟨fun e he => hpairs.mem_iff.mp (h.pair_mem e he),
    fun p hp => h.exists_edge p (hpairs.mem_iff.mpr hp)⟩

theorem Graph.Joins.adj_iff {g : Graph} {pairs : List (Reference × Reference)} {x y : TypeId}
    (h : g.Joins pairs) : g.Adj x y ↔ ∃ p ∈ pairs, (p.1.type, p.2.type) = (x, y) := by
  constructor
  · intro hadj
    obtain ⟨e, he, hends⟩ := hadj
    exact ⟨e.pair, h.pair_mem e he, hends⟩
  · intro hpair
    obtain ⟨p, hp, hends⟩ := hpair
    obtain ⟨e, he, hpe⟩ := h.exists_edge p hp
    exact ⟨e, he, hpe.trans hends⟩

theorem Graph.hasTexts_of_sound {g : Graph} (h : ∀ r ∈ g.references, r.Sound true) :
    g.hasTexts = true := by
  refine Graph.hasTexts_iff.mpr fun e he => ?_
  obtain ⟨hsource, htarget⟩ := Graph.mem_references he
  exact ⟨(h _ hsource).hasText, (h _ htarget).hasText⟩

/-- What is synthesized on a graph of sound references is made of sound references. -/
theorem Closure.Settled.isSound {g : Graph} {d : Catalog} {c : Closure} {e : Synthesized}
    (h : Settled g d c) (hg : ∀ r ∈ g.references, r.Sound true) (he : e ∈ c.edges) :
    Emission.IsSound e := by
  obtain ⟨hsource, htarget, hvia⟩ := h.mem_references he
  exact ⟨hg _ hsource, hg _ htarget, hg _ hvia⟩

namespace Registry

/-- The reference is an end of a declaration that is accepted. -/
def IsEnd (name : String) (units : List SourceUnit) (r : Reference) : Prop :=
  ∃ p ∈ acceptedPairs name units, r = p.1 ∨ r = p.2

/-- The ends of accepted declarations are the same type exactly when they have the same text. -/
def TextsTell (name : String) (units : List SourceUnit) : Prop :=
  ∀ r s, IsEnd name units r → IsEnd name units s → (r ≈ s ↔ r.render = s.render)

theorem isEnd_of_mem_references {g : Graph} {r : Reference}
    (hg : g.Joins (acceptedPairs name units)) (hr : r ∈ g.references) : IsEnd name units r := by
  obtain ⟨e, he, hends⟩ := List.mem_flatMap.mp hr
  exact ⟨e.pair, hg.pair_mem e he, by simpa [Edge.pair] using hends⟩

section Sound

/-! ### The registry of sound units -/

variable (hsound : ∀ unit ∈ units, unit.IsSound)
include hsound

/-- The ends of an accepted pair are sound, and they are different types. -/
theorem sound_of_accepted {p : Reference × Reference} (hp : p ∈ acceptedPairs name units) :
    p.1.Sound true ∧ p.2.Sound true ∧ p.1.type ≠ p.2.type := by
  obtain ⟨unit, hunit, d, hd, haccepted⟩ := mem_acceptedPairs.mp hp
  obtain ⟨hsource, htarget, hdistinct⟩ := (hsound unit hunit d hd).of_accepted? haccepted
  exact ⟨hsource, htarget.toArgument, fun h => hdistinct (Reference.type_eq_iff.mp h)⟩

theorem sound_of_isEnd {r : Reference} (hr : IsEnd name units r) : r.Sound true := by
  obtain ⟨p, hp, rfl | rfl⟩ := hr
  · exact (sound_of_accepted hsound hp).1
  · exact (sound_of_accepted hsound hp).2.1

theorem sound_of_mem_references {g : Graph} (hg : g.Joins (acceptedPairs name units)) :
    ∀ r ∈ g.references, r.Sound true :=
  fun _ hr => sound_of_isEnd hsound (isEnd_of_mem_references hg hr)

theorem hasTexts_of_dropped {r : Dropped} (hr : r ∈ droppedDecls name units) :
    r.hasTexts = true := by
  obtain ⟨unit, hunit, d, hd, hdropped⟩ := mem_droppedDecls.mp hr
  have hends := hsound unit hunit d hd
  obtain ⟨hsource, htarget⟩ := ConversionDecl.of_dropped? hdropped
  rw [Dropped.hasTexts, hsource, htarget, hends.source.hasText, hends.target.hasText]
  rfl

/-- The registry comes to an end with the graph of the accepted pairs. -/
theorem does_build_of_ofPairs {g : Graph} (name : String)
    (hg : Graph.ofPairs (acceptedPairs name units) = .ok g) :
    (build units name).Does (units.flatMap charges)
      (.ok ⟨g, sortBy Dropped.key (droppedDecls name units)⟩) := by
  have hall : (droppedDecls name units).all Dropped.hasTexts = true :=
    List.all_eq_true.mpr fun r hr => hasTexts_of_dropped hsound hr
  rw [← List.append_nil (units.flatMap charges)]
  refine (Tally.does_foldlM name hsound).bind ?_
  rw [if_pos hall, hg]
  exact Metered.Does.pure _

/-- The accepted pairs have a graph, and it joins them. -/
theorem exists_ofPairs (name : String) :
    ∃ g, Graph.ofPairs (acceptedPairs name units) = .ok g ∧ g.Joins (acceptedPairs name units) := by
  obtain ⟨g, hg, hmem, hadj⟩ := Graph.exists_insertPairs (g := {})
    fun p (hp : p ∈ acceptedPairs name units) => (sound_of_accepted hsound hp).2.2
  refine ⟨g, hg, fun e he => (hmem e he).resolve_left (by simp), ?_⟩
  intro p hp
  exact (hadj _ _).mpr (Or.inr ⟨p, hp, rfl⟩)

/-- **The registry comes to an end, with the graph that joins the accepted pairs.** -/
theorem does_build (name : String) :
    ∃ g, (build units name).Does (units.flatMap charges)
        (.ok ⟨g, sortBy Dropped.key (droppedDecls name units)⟩) ∧
      g.Joins (acceptedPairs name units) := by
  obtain ⟨g, hg, hjoins⟩ := exists_ofPairs hsound name
  exact ⟨g, does_build_of_ofPairs hsound name hg, hjoins⟩

/-! ### Accepted types that are told by their texts -/

variable (htell : TextsTell name units)
include htell

/-- Ends that have one text are one reference. -/
theorem isEnd_eq {r s : Reference} (hr : IsEnd name units r) (hs : IsEnd name units s)
    (h : r.render = s.render) : r = s :=
  (sound_of_isEnd hsound hr).eq_of_render (sound_of_isEnd hsound hs) ((htell r s hr hs).mpr h) h

theorem mem_edges_iff {g : Graph} {e : Edge} (hg : g.Joins (acceptedPairs name units)) :
    e ∈ g.edges ↔ e.pair ∈ acceptedPairs name units := by
  refine ⟨hg.pair_mem e, ?_⟩
  intro he
  obtain ⟨f, hf, hends⟩ := hg.exists_edge e.pair he
  obtain ⟨hsource, htarget⟩ := Prod.mk.inj hends
  have heq : ∀ {r s : Reference}, IsEnd name units r → IsEnd name units s → r.type = s.type →
      r = s := by
    intro r s hr hs htype
    exact isEnd_eq hsound htell hr hs ((htell r s hr hs).mp (Reference.type_eq_iff.mp htype))
  have hpair : f.pair = e.pair := by
    refine Prod.ext (heq ?_ ?_ hsource) (heq ?_ ?_ htarget)
    · exact ⟨f.pair, hg.pair_mem f hf, Or.inl rfl⟩
    · exact ⟨e.pair, he, Or.inl rfl⟩
    · exact ⟨f.pair, hg.pair_mem f hf, Or.inr rfl⟩
    · exact ⟨e.pair, he, Or.inr rfl⟩
  rwa [← Edge.pair_inj hpair]

/-- The accepted pairs determine the edges. -/
theorem edges_perm {g g' : Graph} (hg : g.Joins (acceptedPairs name units))
    (hg' : g'.Joins (acceptedPairs name units)) : g.edges.Perm g'.edges := by
  have hnodup : ∀ g : Graph, g.edges.Nodup := by
    intro g
    refine g.distinct.imp ?_
    rintro e _ hne rfl
    exact hne (Setoid.refl e)
  refine (List.perm_ext_iff_of_nodup (hnodup g) (hnodup g')).mpr fun e => ?_
  rw [mem_edges_iff hsound htell hg, mem_edges_iff hsound htell hg']

end Sound

end Registry

end ConversionClosure
