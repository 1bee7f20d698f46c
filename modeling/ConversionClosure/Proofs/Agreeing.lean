/-
Entries and implementations agree.

A conversion can be told in two ways: as an entry of a document, which writes the trait, the source
and the target apart from each other, and as an implementation in source text, where the source
stands inside of the trait and the parameters in front of it.  Both are read as the same
conversion, with the lifetimes and parameters that were written.
-/
import ConversionClosure.Proofs.Items
import ConversionClosure.Proofs.Reparsing
import ConversionClosure.Proofs.Simple
import ConversionClosure.Proofs.Units

namespace ConversionClosure

open Text Piece Token Reference

variable {ts : List Token} {params : List String} {trait source target r : Reference}

/-! ### Two ways to tell a conversion -/

/-- The conversion from `source` to `target` by a trait that takes the source as its argument. -/
def declared (trait source target : Reference) (params : List String) : ConversionDecl :=
  { trait := { trait with args := [source] }, source, target, params }

/-- The conversion as an entry of a document. -/
def entryOf (trait source target : Reference) (params : List String) : Entry :=
  { trait := trait.render, source := source.render, target := target.render, params }

/-- The conversion as an implementation with an empty body. -/
def implText (trait source target : Reference) (params : List String) : String :=
  "impl" ++ Emission.generics params ++ " " ++ trait.render ++ "<" ++ source.render ++ "> for " ++
    target.render ++ " \x7b\x7d"

/-- A path of names that may stand behind the keyword of an implementation: it does not start with
a word that means something else there. -/
inductive NamesTrait : Reference → Prop
  | path {first : String} {more : List String}
      (hsegments : ∀ s ∈ first :: more, isIdentifier s = true)
      (hstart : first ∉ "const" :: reservedStarts) : NamesTrait (ofSegments (first :: more))

namespace NamesTrait

theorem simple (h : NamesTrait trait) : trait.Simple := by
  cases h with
  | path hsegments hstart =>
      exact .path hsegments (fun hmem => hstart (List.mem_cons_of_mem _ hmem)) (by simp)

theorem simple_withSource (h : NamesTrait trait) (hsource : source.Simple) :
    Simple { trait with args := [source] } := by
  cases h with
  | path hsegments hstart =>
      exact .path hsegments (fun hmem => hstart (List.mem_cons_of_mem _ hmem))
        (by simpa using hsource)

/-- What spells the trait does not start with `const`. -/
theorem isIdent_const (h : NamesTrait trait) (hts : Spells ts r) (hpath : r.modifier = .path)
    (hsegments : r.segments = trait.segments) : ∀ t ∈ ts.head?, t.isIdent "const" = false := by
  cases h with
  | @path first more _ hstart =>
      have hfirst : first ≠ "const" := fun heq => hstart (by simp [heq])
      cases hts with
      | path hroot =>
          obtain ⟨rfl, -⟩ := List.cons.inj hsegments
          obtain rfl | ⟨l, rfl⟩ := hroot
          · simpa using hfirst
          · simp
      | star exclusive =>
          cases exclusive with
          | false => cases hpath
          | true => cases hpath
      | shared | exclusive | tuple | slice | array => cases hpath

end NamesTrait

/-! ### The entry -/

theorem parseEntry_entryOf (htrait : NamesTrait trait) (hsource : source.Simple)
    (htarget : target.Simple) :
    Format.parseEntry (entryOf trait source target params) =
      .ok (declared trait source target params) := by
  have hwith : Format.withSource trait source.render = .ok { trait with args := [source] } := by
    cases htrait with
    | path _ _ =>
        rw [Format.withSource, hsource.parse_eq]
        rfl
  rw [Format.parseEntry, entryOf]
  simp only [htrait.simple.parse_eq, hsource.parse_eq, htarget.parse_eq, bind, Except.bind, hwith]
  rfl

/-- A document with one entry that can be read declares one conversion. -/
theorem does_parseDocument {path : Path} {text : String} {content : Document} {entry : Entry}
    {d : ConversionDecl} (hread : Document.read text = .ok content)
    (hentries : content.entries = [entry]) (hentry : Format.parseEntry entry = .ok d) :
    ∃ unit, (Format.parseDocument path text).Does [.readEntry] (.ok unit) ∧
      unit.conversions = [d] ∧ unit.skipped = [] := by
  obtain ⟨notes, hdoes, hnotes⟩ := Format.does_parseEntries 0 [entry]
  obtain rfl : notes = [] := hnotes (by simp [hentry, Except.isOk, Except.toBool])
  rw [Format.conversionsOf, List.filterMap_cons, hentry] at hdoes
  refine ⟨⟨((content.path.filter (· != "")).map Path.ofText).getD path, content.types, [d], []⟩,
    ?_, rfl, rfl⟩
  unfold Format.parseDocument
  rw [hread]
  simp only [hentries]
  exact hdoes.bind (Metered.Does.pure _)

/-! ### The implementation -/

/-- The source stands inside of the trait. -/
theorem toList_implText (params : List String) (htrait : NamesTrait trait) :
    (implText trait source target params).toList =
      "impl".toList ++ ((Emission.generics params).toList ++ [' ']) ++
        ((render { trait with args := [source] }).toList ++ (' ' :: ("for".toList ++ [' ']) ++
          (target.render.toList ++ ' ' :: ("\x7b".toList ++ "\x7d".toList)))) := by
  cases htrait with
  | path _ _ => simp [implText, render, ofSegments, commaSeparated]

/-- The tokens of the implementation are one item, which declares the conversion. -/
theorem exists_item_implText (htrait : NamesTrait trait) (hsource : source.Simple)
    (htarget : target.Simple) (hparams : ∀ p ∈ params, NamesParameter p) :
    ∃ ts, lex (implText trait source target params) = .ok ts ∧
      Scanner.Item ts (some (.conversion (declared trait source target params))) := by
  obtain ⟨ts, mid, htraitLexes, hts⟩ := (htrait.simple_withSource hsource).writes 1
    (' ' :: ("for".toList ++ [' ']) ++
      (target.render.toList ++ ' ' :: ("\x7b".toList ++ "\x7d".toList)) ++ [])
    (separates_cons.mpr (by decide))
  obtain ⟨us, last, htargetLexes, hus⟩ := htarget.writes mid
    (' ' :: ("\x7b".toList ++ "\x7d".toList) ++ []) (separates_cons.mpr (by decide))
  have hhead : ∀ rest, LexesTo 1 ("impl".toList ++ ((Emission.generics params).toList ++ [' ']))
      (name 1 "impl" :: (Emission.parameterTokens 1 params ++ [])) 1 rest := by
    intro rest
    refine Lexes.identifier_append (by decide) ?_ ?_
    · rw [List.append_assoc]
      exact Emission.separates_generics (separates_cons.mpr (by decide))
    · exact (Emission.lexes_generics fun p hp => (hparams p hp).standsAlone).append Lexes.blank
  have hfor : ∀ rest, LexesTo mid (' ' :: ("for".toList ++ [' '])) [name mid "for"] mid rest :=
    fun _ => Lexes.blank_append (Lexes.word (by decide))
  have hbraces : LexesTo last (' ' :: ("\x7b".toList ++ "\x7d".toList))
      [mark last "\x7b", mark last "\x7d"] last [] :=
    Lexes.blank_append (Lexes.punct_append (by decide) (Lexes.punct (by decide)))
  have hall := (hhead _).append (htraitLexes.append ((hfor _).append (htargetLexes.append hbraces)))
  rw [← toList_implText params htrait, List.append_nil] at hall
  refine ⟨_, lex_of_lexFrom hall.lexFrom_eq (by simp), ?_⟩
  have hconst : ∀ t ∈ ts.head?, t.isIdent "const" = false :=
    htrait.isIdent_const hts (by cases htrait; rfl) rfl
  have hrun : Parameters (Emission.parameterTokens 1 params) :=
    Emission.parameters_parameterTokens hparams
  cases htrait with
  | path _ _ =>
      have hitem := @Scanner.Item.impl 1 mid last last _ ts us [] [] _ source target [] hrun hts hconst hus
        .none .nil
      rwa [Scanner.params_parameterTokens hparams] at hitem

theorem parseSource_implText (htrait : NamesTrait trait) (hsource : source.Simple)
    (htarget : target.Simple) (hparams : ∀ p ∈ params, NamesParameter p) (path : Path) :
    Format.parseSource path (implText trait source target params) =
      .ok { path, conversions := [declared trait source target params] } := by
  obtain ⟨ts, hlex, hitem⟩ := exists_item_implText htrait hsource htarget hparams
  have hfile := Scanner.WellFormed.cons .nil .nil hitem .nil
  rw [List.append_nil] at hfile
  rw [hfile.parseSource_eq path _ hlex]
  exact congrArg _ (Emission.ofFindings_conversions path [declared trait source target params])

/-- **An entry and an implementation that tell one conversion are read as one conversion.** -/
theorem parse_agree (htrait : NamesTrait trait) (hsource : source.Simple)
    (htarget : target.Simple) (hparams : ∀ p ∈ params, NamesParameter p) :
    Format.parseEntry (entryOf trait source target params) =
        .ok (declared trait source target params) ∧
      (∀ path text content, Document.read text = .ok content →
        content.entries = [entryOf trait source target params] →
        ∃ unit, (Format.parseDocument path text).Does [.readEntry] (.ok unit) ∧
          unit.conversions = [declared trait source target params] ∧ unit.skipped = []) ∧
      ∀ path, Format.parseSource path (implText trait source target params) =
        .ok { path, conversions := [declared trait source target params] } := by
  have hentry : Format.parseEntry (entryOf trait source target params) =
      .ok (declared trait source target params) := parseEntry_entryOf htrait hsource htarget
  exact ⟨hentry, fun _ _ _ hread hentries => does_parseDocument hread hentries hentry,
    parseSource_implText htrait hsource htarget hparams⟩

/-! A conversion of an array, whose length is a byte, to a slot table. -/

def packet : Reference where
  modifier := .array
  length := "b'a'"
  args := [ofSegments ["u8"]]

theorem packet_simple : packet.Simple := by
  have hlength : OneToken "b'a'" := ⟨.literal, by decide +kernel⟩
  exact .array hlength (.path (by decide) (by decide) (by simp))

def packetDocument : String :=
  "\x7b\"conversions\": [\x7b\"trait\": \"std::convert::From\", \"source\": \"[u8; b'a']\", " ++
    "\"target\": \"&'a mut [Slot<(u8,)>; 4]\", \"impl_params\": [\"'a\", \"T\"]\x7d]\x7d"

theorem read_packetDocument : Document.read packetDocument = .ok
    { entries := [entryOf (ofSegments ["std", "convert", "From"]) packet slots ["'a", "T"]] } := by
  decide +kernel

theorem implText_packet : implText (ofSegments ["std", "convert", "From"]) packet slots ["'a", "T"] =
    "impl<'a, T> std::convert::From<[u8; b'a']> for &'a mut [Slot<(u8,)>; 4] \x7b\x7d" := by
  decide +kernel

/-- The document and the source text declare the same conversion. -/
theorem parse_agree_packet : ∃ unit unit',
    (Format.parseDocument (.ofText "a.json") packetDocument).Does [.readEntry] (.ok unit) ∧
      Format.parseSource (.ofText "a.rs")
        "impl<'a, T> std::convert::From<[u8; b'a']> for &'a mut [Slot<(u8,)>; 4] \x7b\x7d" =
          .ok unit' ∧
      unit.conversions = unit'.conversions ∧ unit.conversions =
        [declared (ofSegments ["std", "convert", "From"]) packet slots ["'a", "T"]] := by
  have htrait : NamesTrait (ofSegments ["std", "convert", "From"]) := .path (by decide) (by decide)
  have hparams : ∀ p ∈ ["'a", "T"], NamesParameter p := by
    unfold NamesParameter
    decide
  obtain ⟨-, hdocument, hsource⟩ := parse_agree htrait packet_simple (.of_plain slots_plain) hparams
  obtain ⟨unit, hdoes, hconversions, -⟩ := hdocument (.ofText "a.json") _ _ read_packetDocument rfl
  have hparse := hsource (.ofText "a.rs")
  rw [implText_packet] at hparse
  exact ⟨unit, _, hdoes, hparse, hconversions, hconversions⟩

end ConversionClosure
