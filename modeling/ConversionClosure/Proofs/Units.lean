/-
Conversions of units.

A unit is read from a source text or from a document.  Either way both ends of each conversion were
read as types, or the source as an argument of the trait.  So they have what types inherit from the
tokens that they are read of, and they are sound.
-/
import ConversionClosure.Language
import ConversionClosure.Proofs.Metering
import ConversionClosure.Proofs.Taking

namespace ConversionClosure

open Token

/-- Both ends of the conversion are sound; its source is read as an argument. -/
structure ConversionDecl.IsSound (d : ConversionDecl) : Prop where
  source : d.source.Sound true
  target : d.target.Sound false

/-- The trait and both ends of the conversion of the finding, if it is one, are good types. -/
def Finding.Has (good : Bool → Reference → Prop) (found : Finding) : Prop :=
  ∀ d, found = conversion d → good false d.trait ∧ good true d.source ∧ good false d.target

/-! ### Source texts -/

namespace Scanner

open TokenReader Reference

variable {ts : List Token} {fit : Token → Prop} {segment : String → Prop}
  {good : Bool → Reference → Prop}

theorem skipItem_gives (hts : All fit ts) : Gives fit skipItem ts fun _ => True :=
  ⟨fun t ht => hts t ((Run.afterItem_suffix 0 false ts).subset ht), trivial⟩

theorem skipAttributes_gives (fuel : Nat) (hts : All fit ts) :
    Gives fit (skipAttributes fuel) ts fun _ => True := by
  induction fuel generalizing ts with
  | zero => exact Gives.throw hts
  | succ fuel ih =>
      unfold skipAttributes
      refine (Gives.atPunct hts "#" 0).bind fun hash us hus _ => ?_
      split
      · refine (Gives.atPunct hus "!" 1).bind fun inner us hus _ => ?_
        extract_lets offset
        refine (Gives.atPunct hus "[" offset).bind fun bracket us hus _ => ?_
        split
        · refine (Gives.drop hus offset).bind fun _ us hus _ => ?_
          exact (Gives.group hus).bind fun _ us hus _ => ih hus
        · exact Gives.pure hus trivial
      · exact Gives.pure hus trivial

theorem skipWords_gives (fuel : Nat) (hts : All fit ts) :
    Gives fit (skipWords fuel) ts fun _ => True := by
  induction fuel generalizing ts with
  | zero => exact Gives.throw hts
  | succ fuel ih =>
      unfold skipWords
      refine (Gives.peek? hts).bind fun next us hus _ => ?_
      cases next with
      | none => exact Gives.pure hus trivial
      | some t =>
          dsimp only
          split
          · refine (Gives.skip hus).bind fun _ us hus _ => ?_
            refine (Gives.atPunct hus "(" 0).bind fun round us hus _ => ?_
            split
            · exact (Gives.group hus).bind fun _ us hus _ => ih hus
            refine (Gives.peek? hus).bind fun next us hus _ => ?_
            split
            · exact (Gives.skip hus).bind fun _ us hus _ => ih hus
            · exact ih hus
          · exact Gives.pure hus trivial

theorem typeItem_gives (keyword : String) (line : Nat) (hts : All fit ts) :
    Gives fit (typeItem keyword line) ts (Finding.Has good) := by
  unfold typeItem
  refine (Gives.peek? hts).bind fun next us hus _ => ?_
  cases next with
  | none => exact Gives.pure hus (fun d hd => absurd hd (by simp))
  | some name =>
      dsimp only
      split
      · refine (Gives.skip hus).bind fun _ us hus _ => ?_
        refine (Gives.atPunct hus "<" 0).bind fun angle us hus _ => ?_
        have hfinish : ∀ (arity : Int) us, All fit us →
            Gives fit (do skipItem; return .type ⟨name.text, keyword, arity⟩) us (Finding.Has good) := by
          intro arity us hus
          refine (skipItem_gives hus).bind fun _ us hus _ => Gives.pure hus ?_
          exact fun d hd => absurd hd (by simp)
        split
        · exact (Gives.angles hus).bind fun run us hus _ => hfinish _ us hus
        · exact hfinish 0 us hus
      · refine (skipItem_gives hus).bind fun _ us hus _ => Gives.pure hus ?_
        exact fun d hd => absurd hd (by simp)

/-- The types of the header are good, if it declares anything. -/
def HeaderHas (good : Bool → Reference → Prop)
    (header : Option (List String × Reference × Reference)) : Prop :=
  ∀ names trait target, header = some (names, trait, target) → good false trait ∧ good false target

theorem implHeader_gives (hgood : Inherits fit segment good) (hts : All fit ts) :
    Gives fit implHeader ts (HeaderHas good) := by
  unfold implHeader
  refine (Gives.atPunct hts "<" 0).bind fun angle us hus _ => ?_
  extract_lets goOn
  have hgoOn : ∀ names us, All fit us → Gives fit (goOn names) us (HeaderHas good) := by
    intro names us hus
    refine (Gives.atIdent hus "const").bind fun isConst us hus _ => ?_
    extract_lets finish
    have hfinish : ∀ u us, All fit us → Gives fit (finish u) us (HeaderHas good) := by
      intro _ us hus
      refine (Gives.atPunct hus "!" 0).bind fun negative us hus _ => ?_
      split
      · exact Gives.pure hus (by simp [HeaderHas])
      refine (reader_gives hgood hus).bind fun trait us hus htrait => ?_
      refine (Gives.atIdent hus "for").bind fun isFor us hus _ => ?_
      split
      · refine (Gives.skip hus).bind fun _ us hus _ => ?_
        refine (reader_gives hgood hus).bind fun target us hus htarget => ?_
        exact Gives.pure hus (by simp [HeaderHas, htrait, htarget])
      · exact Gives.pure hus (by simp [HeaderHas])
    split
    · exact (Gives.skip hus).bind fun _ us hus _ => hfinish () us hus
    · exact hfinish () us hus
  split
  · exact (Gives.angles hus).bind fun run us hus _ => hgoOn _ us hus
  · exact hgoOn [] us hus

/-- The conversion that a header declares has an argument of the trait as its source. -/
theorem has_of_conversion? (hgood : Inherits fit segment good) {names : List String}
    {trait target : Reference} {d : ConversionDecl} (htrait : good false trait)
    (htarget : good false target) (h : conversion? names trait target = some d) :
    good false d.trait ∧ good true d.source ∧ good false d.target := by
  unfold conversion? at h
  split at h
  · rename_i hpath
    obtain ⟨source, hsource, rfl⟩ := Option.map_eq_some_iff.mp h
    exact ⟨htrait, hgood.arguments htrait hpath source (List.mem_of_head? hsource), htarget⟩
  · cases h

theorem implItem_gives (hgood : Inherits fit segment good) (line : Nat) (hts : All fit ts) :
    Gives fit (implItem line) ts fun found => ∀ f ∈ found, f.Has good := by
  have hheader := implHeader_gives hgood hts
  unfold Gives at hheader ⊢
  have hafter : ∀ {rest}, All fit rest → All fit (Run.afterItem 0 false rest) :=
    fun hrest t ht => hrest t ((Run.afterItem_suffix 0 false _).subset ht)
  unfold implItem
  cases hrun : implHeader ts with
  | ok header rest =>
      rw [hrun] at hheader
      obtain ⟨hrest, hhas⟩ := hheader
      cases header with
      | none => exact ⟨hafter hrest, by simp⟩
      | some header =>
          obtain ⟨names, trait, target⟩ := header
          obtain ⟨htrait, htarget⟩ := hhas names trait target rfl
          refine ⟨hafter hrest, ?_⟩
          intro f hf d hd
          obtain ⟨d', hd', rfl⟩ := Option.map_eq_some_iff.mp (Option.mem_def.mp hf)
          obtain rfl : d' = d := by simpa using hd
          exact has_of_conversion? hgood htrait htarget hd'
  | error fault rest =>
      rw [hrun] at hheader
      cases fault with
      | unmatchedBracket | outOfFuel => exact hheader
      | _ => exact ⟨hafter hheader, by simp [Finding.Has]⟩

theorem item_gives (hgood : Inherits fit segment good) (hts : All fit ts) :
    Gives fit item ts fun found => ∀ f ∈ found, f.Has good := by
  unfold item
  refine (Gives.peek? hts).bind fun next us hus _ => ?_
  cases next with
  | none => exact Gives.pure hus (by simp)
  | some t =>
      dsimp only
      split
      · refine (Gives.skip hus).bind fun _ us hus _ => ?_
        refine Gives.bind (@typeItem_gives _ _ good t.text t.line hus) fun f us hus hf =>
          Gives.pure hus ?_
        simpa using hf
      split
      · exact (Gives.skip hus).bind fun _ us hus _ => implItem_gives hgood t.line hus
      · exact (skipItem_gives hus).bind fun _ us hus _ => Gives.pure hus (by simp)

theorem items_gives (hgood : Inherits fit segment good) (fuel : Nat) (hts : All fit ts) :
    Gives fit (items fuel) ts fun found => ∀ f ∈ found, f.Has good := by
  induction fuel generalizing ts with
  | zero => exact Gives.throw hts
  | succ fuel ih =>
      unfold items
      refine (Gives.atEnd hts).bind fun atEnd us hus _ => ?_
      split
      · exact Gives.pure hus (by simp)
      refine (Gives.get hus).bind fun all us hus _ => ?_
      refine (skipAttributes_gives _ hus).bind fun _ us hus _ => ?_
      refine (skipWords_gives _ hus).bind fun _ us hus _ => ?_
      refine (item_gives hgood hus).bind fun found us hus hfound => ?_
      refine (ih hus).bind fun more us hus hmore => Gives.pure hus ?_
      intro f hf
      rcases List.mem_append.mp hf with hf | hf
      · exact hfound f (by simpa using hf)
      · exact hmore f hf

end Scanner

namespace Finding

open TokenReader Reference

variable {fit : Token → Prop} {segment : String → Prop} {good : Bool → Reference → Prop}

theorem has_of_scan (hgood : Inherits fit segment good) {ts : List Token} {found : List Finding}
    (hts : All fit ts) (h : scan ts = .ok found) : ∀ f ∈ found, f.Has good := by
  have hitems := Scanner.items_gives hgood (ts.length + 1) hts
  unfold TokenReader.Gives at hitems
  unfold scan at h
  cases hrun : Scanner.items (ts.length + 1) ts with
  | error fault rest => simp [hrun] at h
  | ok found' rest =>
      rw [hrun] at h hitems
      obtain rfl : found' = found := by simpa using h
      exact hitems.2

end Finding

namespace SourceUnit

/-- Every conversion of the unit is sound. -/
def IsSound (unit : SourceUnit) : Prop := ∀ d ∈ unit.conversions, d.IsSound

/-- The unit is what some text reads as, in a format and under a budget. -/
def IsRead (unit : SourceUnit) : Prop :=
  ∃ (format : Format) (path : Path) (text : String) (scope : Scope) (b b' : Budget),
    (format.parse path text).runWith scope b = (.ok unit, b')

end SourceUnit

namespace Format

variable {path : Path} {text : String} {unit : SourceUnit}

open TokenReader Reference

/-- The types of a unit inherit what the tokens of its source text have. -/
theorem has_of_parseSource {fit : Token → Prop} {segment : String → Prop}
    {good : Bool → Reference → Prop} (hgood : Inherits fit segment good)
    (htokens : ∀ ts, tokenize text = .ok ts → All fit ts) (h : parseSource path text = .ok unit) :
    ∀ d ∈ unit.conversions, good true d.source ∧ good false d.target := by
  unfold parseSource at h
  split at h
  · cases h
  · rename_i ts hlex
    split at h
    · cases h
    · rename_i found hscan
      cases h
      intro d hd
      obtain ⟨f, hf, hconversion⟩ := List.mem_filterMap.mp hd
      refine (Finding.has_of_scan hgood (htokens ts hlex) hscan f hf d ?_).2
      cases f with
      | type decl => cases hconversion
      | conversion decl => exact congrArg Finding.conversion (Option.some.inj hconversion)
      | skipped note => cases hconversion

theorem isSound_of_parseSource (h : parseSource path text = .ok unit) : unit.IsSound := by
  intro d hd
  obtain ⟨hsource, htarget⟩ :=
    has_of_parseSource inherits_sound (fun _ => allFit_of_tokenize) h d hd
  exact ⟨hsource, htarget⟩

/-- What a source text reads as is a unit that was read. -/
theorem isRead_of_parseSource (h : parseSource path text = .ok unit) : unit.IsRead := by
  refine ⟨.source, path, text, .unhurried .load, { limit := 1 }, { limit := 1 }, ?_⟩
  simp only [parse, h]
  rfl

/-! ### Documents -/

theorem isSound_of_parseEntry {entry : Entry} {d : ConversionDecl}
    (h : parseEntry entry = .ok d) : d.IsSound := by
  simp only [parseEntry, bind, Except.bind] at h
  split at h
  · cases h
  split at h
  · cases h
  split at h
  · cases h
  rename_i source hsource
  split at h
  · cases h
  rename_i target htarget
  cases h
  exact ⟨(Reference.sound_of_parse hsource).toArgument, Reference.sound_of_parse htarget⟩

/-- The conversions of the entries that can be read, in their order. -/
def conversionsOf (entries : List Entry) : List ConversionDecl :=
  entries.filterMap fun entry => (parseEntry entry).toOption

theorem isSound_of_mem_conversionsOf {entries : List Entry} {d : ConversionDecl}
    (h : d ∈ conversionsOf entries) : d.IsSound := by
  obtain ⟨entry, -, hentry⟩ := List.mem_filterMap.mp h
  cases hparse : parseEntry entry with
  | error fault =>
      rw [hparse] at hentry
      cases hentry
  | ok d' =>
      rw [hparse] at hentry
      cases hentry
      exact isSound_of_parseEntry hparse

/-- Entries are read with one tick for each.  Those that cannot be read are noted, and when there
are none of these nothing is. -/
theorem does_parseEntries (index : Nat) (entries : List Entry) :
    ∃ notes, (parseEntries index entries).Does (List.replicate entries.length .readEntry)
        (.ok (conversionsOf entries, notes)) ∧
      ((∀ entry ∈ entries, (parseEntry entry).isOk = true) → notes = []) := by
  induction entries generalizing index with
  | nil => exact ⟨[], Metered.Does.pure _, fun _ => rfl⟩
  | cons entry entries ih =>
      obtain ⟨notes, hdoes, hnotes⟩ := ih (index + 1)
      have hticks : List.replicate (entry :: entries).length Site.readEntry =
          [.readEntry] ++ (List.replicate entries.length .readEntry ++ []) := by
        rw [List.append_nil, List.length_cons, List.replicate_succ, List.singleton_append]
      cases hentry : parseEntry entry with
      | ok d =>
          refine ⟨notes, ?_, fun h => hnotes fun e he => h e (by simp [he])⟩
          rw [hticks, conversionsOf, List.filterMap_cons, hentry]
          unfold parseEntries
          refine (Metered.Does.tick _).bind (hdoes.bind ?_)
          rw [hentry]
          exact Metered.Does.pure _
      | error fault =>
          refine ⟨entryNote index fault :: notes, ?_, fun h => ?_⟩
          · rw [hticks, conversionsOf, List.filterMap_cons, hentry]
            unfold parseEntries
            refine (Metered.Does.tick _).bind (hdoes.bind ?_)
            rw [hentry]
            exact Metered.Does.pure _
          · have hok := h entry (by simp)
            rw [hentry] at hok
            cases hok

theorem isSound_of_parseDocument {scope : Scope} {b b' : Budget}
    (h : (parseDocument path text).runWith scope b = (.ok unit, b')) : unit.IsSound := by
  unfold parseDocument at h
  split at h
  · cases h
  · rename_i content hread
    obtain ⟨notes, hdoes, -⟩ := does_parseEntries 0 content.entries
    obtain ⟨found, b₁, hfound, hunit⟩ := Metered.exists_of_runWith_bind h
    cases hdoes.eq_of_runWith hfound
    cases hunit
    exact fun d hd => isSound_of_mem_conversionsOf hd

end Format

/-- **Both ends of every conversion of a unit that was read are sound.** -/
theorem SourceUnit.IsRead.isSound {unit : SourceUnit} (h : unit.IsRead) : unit.IsSound := by
  obtain ⟨format, path, text, scope, b, b', hrun⟩ := h
  cases format with
  | source =>
      cases hparse : Format.parseSource path text with
      | error fault =>
          simp only [Format.parse, hparse] at hrun
          cases hrun
      | ok unit' =>
          simp only [Format.parse, hparse] at hrun
          cases hrun
          exact Format.isSound_of_parseSource hparse
  | document => exact Format.isSound_of_parseDocument hrun

end ConversionClosure
