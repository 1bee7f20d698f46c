/-
Reading emitted files back.

The scanner passes over the header and the prelude, and it finds one conversion in every
implementation, with the source and the target that it was made from.  The brackets of a body
match, so the body is passed over whatever it holds.
-/
import ConversionClosure.Language
import ConversionClosure.Proofs.Parameters
import ConversionClosure.Proofs.Scanning

namespace ConversionClosure

open Text Piece Token Reference

variable {line line' : Nat} {cs ds : List Char} {ts : List Token} {style : EmissionStyle}
  {e : Synthesized}

namespace Emission

/-! ### Plain conversions -/

/-- The references of a conversion are plain. -/
structure IsPlain (e : Synthesized) : Prop where
  source : e.source.Plain
  target : e.target.Plain
  via : e.via.Plain

/-- Every lifetime of a plain reference is one as the lexer reads it. -/
theorem isLifetime_of_mem {r : Reference} {l : String} (h : r.Plain) (hl : l ∈ r.lifetimes) :
    isLifetime l = true := by
  induction r using Reference.induction with
  | node r ih =>
      obtain ⟨⟨hmodifier, -⟩, hlifetime, hargs⟩ := h.node
      rcases (mem_lifetimes hmodifier).mp hl with ⟨rfl, hne⟩ | ⟨a, ha, hla⟩
      · exact hlifetime.resolve_left hne
      · exact ih a ha (hargs a ha) hla

theorem IsPlain.isSound (h : IsPlain e) : IsSound e :=
  ⟨h.source.sound, h.target.sound, h.via.sound⟩

theorem IsPlain.isLegible (h : IsPlain e) : IsLegible e where
  source := h.source.legible
  target := h.target.legible
  via := h.via.legible
  lifetimes := fun _ hl => standsAlone_lifetime
    (isLifetime_of_mem h.source (mem_declaredLifetimes.mp hl).1)

theorem plain_fromTrait {source : Reference} (h : source.Plain) : (fromTrait source).Plain :=
  .path (by decide) (by decide) (by simpa using h)

theorem balanced_callTokens {source target : Reference} (hsource : source.Plain)
    (htarget : target.Plain) : Balanced (callTokens line source target) := by
  have hend : Balanced [mark line ">", mark line "::", name line "from"] :=
    .inner (isInner_mark rfl rfl) (.inner (isInner_mark rfl rfl) (.singleton isInner_name))
  have htrait : Balanced ((fromTrait source).tokens line ++
      [mark line ">", mark line "::", name line "from"]) :=
    (plain_fromTrait hsource).balanced.append hend
  exact .inner (isInner_mark rfl rfl) (htarget.balanced.append
    (.inner isInner_name (.inner (isInner_mark rfl rfl) htrait)))

theorem balanced_bodyTokens (he : IsPlain e) : Balanced (bodyTokens line e) := by
  have hvalue : Balanced (mark (line + 2) "(" :: [name (line + 2) "value"] ++
      [mark (line + 2) ")", mark (line + 2) ","]) :=
    .group rfl rfl (.singleton isInner_name) (.singleton (isInner_mark rfl rfl))
  have hinner : Balanced (callTokens (line + 2) e.source e.via ++ (mark (line + 2) "(" ::
      [name (line + 2) "value"] ++ [mark (line + 2) ")", mark (line + 2) ","])) :=
    (balanced_callTokens he.source he.via).append hvalue
  have hcall : Balanced (callTokens (line + 1) e.via e.target ++ (mark (line + 1) "(" ::
      (callTokens (line + 2) e.source e.via ++ (mark (line + 2) "(" :: [name (line + 2) "value"] ++
        [mark (line + 2) ")", mark (line + 2) ","])) ++ [mark (line + 3) ")"])) :=
    (balanced_callTokens he.via he.target).append (.bracketed rfl rfl hinner)
  have hargument : Balanced (name line "value" :: mark line ":" :: e.source.tokens line) :=
    .inner isInner_name (.inner (isInner_mark rfl rfl) he.source.balanced)
  refine .inner isInner_name (.inner isInner_name (.group rfl rfl hargument ?_))
  exact .inner (isInner_mark rfl rfl) (.inner isInner_name (.bracketed rfl rfl hcall))

theorem parameters_declared (he : IsPlain e) :
    Parameters (parameterTokens line e.source.declaredLifetimes) :=
  parameters_parameterTokens fun _ hl =>
    .inl (isLifetime_of_mem he.source (mem_declaredLifetimes.mp hl).1)

theorem balanced_conversionTokens (he : IsPlain e) : Balanced (conversionTokens line e) := by
  have hbody : Balanced (mark line "\x7b" :: bodyTokens (line + 1) e ++ [mark (line + 6) "\x7d"]) :=
    .bracketed rfl rfl (balanced_bodyTokens he)
  have hfor : Balanced (name line "for" :: (e.target.tokens line ++
      (mark line "\x7b" :: bodyTokens (line + 1) e ++ [mark (line + 6) "\x7d"]))) :=
    .inner isInner_name (he.target.balanced.append hbody)
  refine .inner isInner_name ((parameters_declared he).balanced.append ?_)
  exact .inner (isInner_mark rfl rfl) ((plain_fromTrait he.source).balanced.append hfor)

theorem finds_conversionTokens (he : IsPlain e) :
    ∃ decl : ConversionDecl, decl.source = e.source ∧ decl.target = e.target ∧
      Scanner.Finds (conversionTokens line e) [.conversion decl] := by
  have htrait : Spells ([mark line "::"] ++ (fromTrait e.source).tokens line)
      (fromTrait e.source) :=
    spells_path (.inr ⟨line, rfl⟩) (by decide) (by decide) (by simpa using he.source.spells)
  have htakes : Scanner.Takes (conversionTokens line e) (some (.conversion ⟨fromTrait e.source,
      e.source, e.target, Scanner.params (parameterTokens line e.source.declaredLifetimes)⟩)) :=
    Scanner.takes_impl (parameters_declared he) htrait.reads (by simp) rfl rfl he.target.reads
      .none (balanced_bodyTokens he)
  exact ⟨_, rfl, rfl, htakes.finds .nil .nil⟩

/-! ### Files -/

/-- The text consists of lines whose brackets match, in which the scanner finds `found`; it starts
on the line `line`, and what follows it on the line `line'`. -/
def Shows (line : Nat) (cs : List Char) (found : List Finding) (line' : Nat) : Prop :=
  ∃ ts, LexesLines line cs ts line' ∧ Balanced ts ∧ Scanner.Finds ts found ∧
    ∀ t ∈ ts.head?, t.isPunct "#" = false

namespace Shows

variable {found more : List Finding}

theorem nil : Shows line [] [] line := ⟨[], .nil, .nil, .nil, by simp⟩

theorem append {mid : Nat} (h : Shows line cs found mid) (h' : Shows mid ds more line') :
    Shows line (cs ++ ds) (found ++ more) line' := by
  obtain ⟨ts, hlexes, hbalanced, hfinds, hhead⟩ := h
  obtain ⟨us, hlexes', hbalanced', hfinds', hhead'⟩ := h'
  refine ⟨ts ++ us, hlexes.append hlexes', hbalanced.append hbalanced', hfinds.append hfinds', ?_⟩
  cases ts with
  | nil => exact hhead'
  | cons t ts => exact hhead

/-- A text of such lines is read, and what it declares is what the scanner finds. -/
theorem parseSource_eq {text : String} (h : Shows 1 text.toList found line') (path : Path) :
    Format.parseSource path text = .ok (.ofFindings path found) := by
  obtain ⟨ts, hlexes, hbalanced, hfinds, hhead⟩ := h
  have hlex : lexFrom 1 text.toList = .ok ts := LexesTo.lexFrom_eq (hlexes [])
  rw [Format.parseSource, hbalanced.tokenize_eq (lex_of_lexFrom hlex hhead)]
  simp only [hfinds.scan_eq]

end Shows

theorem shows_header (header : String) :
    ∃ line', Shows line (endLines (headerLines header)) [] line' := by
  obtain ⟨line', hlexes⟩ := lexes_headerLines header
  exact ⟨line', [], hlexes, .nil, .nil, by simp⟩

/-- An import of everything in a module declares nothing. -/
theorem shows_import {module : String} (h : isIdentifier module = true) :
    Shows line (endLine ("use crate::" ++ module ++ "::*;")) [] (line + 1) := by
  have htext : ("use crate::" ++ module ++ "::*;").toList = "use".toList ++ ' ' ::
      ("crate".toList ++ ("::".toList ++ (module.toList ++ ("::".toList ++
        ("*".toList ++ ";".toList))))) := by simp
  have hlexes : ∀ rest, Lexes line ("use crate::" ++ module ++ "::*;").toList
      (name line "use" :: ([name line "crate", mark line "::", name line module, mark line "::",
        mark line "*"] ++ [mark line ";"])) rest := by
    intro rest
    rw [htext]
    refine Lexes.identifier_append (by decide) (separates_cons.mpr (by decide)) ?_
    refine Lexes.blank_append ?_
    refine Lexes.identifier_append (by decide) (separates_cons.mpr (by decide)) ?_
    refine Lexes.punct_append (by decide) ?_
    refine Lexes.identifier_append h (separates_cons.mpr (by decide)) ?_
    exact Lexes.punct_append (by decide) (Lexes.punct_append (by decide) (Lexes.punct (by decide)))
  have htail : Ongoing [name line "crate", mark line "::", name line module, mark line "::",
      mark line "*"] := by
    refine .inner isInner_name rfl (.inner (isInner_mark rfl rfl) rfl (.inner isInner_name rfl ?_))
    exact .inner (isInner_mark rfl rfl) rfl (.inner (isInner_mark rfl rfl) rfl .nil)
  have htakes : Scanner.Takes (name line "use" :: ([name line "crate", mark line "::",
      name line module, mark line "::", mark line "*"] ++ [mark line ";"])) none :=
    Scanner.takes_other (by decide) htail .semicolon
  exact ⟨_, .of_lexes fun _ => hlexes _, .inner isInner_name
    (htail.balanced.append (.singleton (isInner_mark rfl rfl))), htakes.finds .nil .nil, by simp⟩

/-- The prelude of a file declares nothing. -/
theorem shows_prelude {prelude : List String}
    (h : prelude = ({} : EmissionStyle).prelude ∨ prelude = []) :
    ∃ line', Shows line (endLines prelude) [] line' := by
  rcases h with rfl | rfl
  · have hschema : Shows line (endLine ("use crate::" ++ "schema" ++ "::*;")) [] (line + 1) :=
      shows_import (by decide)
    have hutils : Shows (line + 1) (endLine ("use crate::" ++ "utils" ++ "::*;")) [] (line + 2) :=
      shows_import (by decide)
    exact ⟨line + 2, hschema.append hutils⟩
  · exact ⟨line, .nil⟩

theorem shows_conversion (hstyle : IsUsual style) (he : IsPlain e) :
    ∃ decl : ConversionDecl, decl.source = e.source ∧ decl.target = e.target ∧
      Shows line (endLines (conversionLines style e)) [.conversion decl] (line + 7) := by
  have hdecl : ∃ decl : ConversionDecl, decl.source = e.source ∧ decl.target = e.target ∧
      Scanner.Finds (conversionTokens line e) [.conversion decl] := finds_conversionTokens he
  obtain ⟨decl, hsource, htarget, hfinds⟩ := hdecl
  exact ⟨decl, hsource, htarget, _, lexes_conversion hstyle he.isLegible,
    balanced_conversionTokens he, hfinds, by simp [conversionTokens, implTokens]⟩

theorem shows_conversions {edges : List Synthesized} (hstyle : IsUsual style)
    (hedges : ∀ e ∈ edges, IsPlain e) :
    ∃ (decls : List ConversionDecl) (line' : Nat),
      (decls.map fun d => (d.source, d.target)) = (edges.map fun e => (e.source, e.target)) ∧
      Shows line (edges.flatMap fun e => endLines (conversionLines style e))
        (decls.map Finding.conversion) line' := by
  induction edges generalizing line with
  | nil => exact ⟨[], line, rfl, .nil⟩
  | cons e edges ih =>
      obtain ⟨decl, hsource, htarget, hshows⟩ :=
        @shows_conversion line _ _ hstyle (hedges e (by simp))
      obtain ⟨decls, line', hends, hmore⟩ := @ih (line + 7) fun e he => hedges e (by simp [he])
      refine ⟨decl :: decls, line', ?_, hshows.append hmore⟩
      rw [List.map_cons, List.map_cons, hends, hsource, htarget]

theorem ofFindings_conversions (path : Path) (decls : List ConversionDecl) :
    SourceUnit.ofFindings path (decls.map .conversion) = { path, conversions := decls } := by
  have htypes : (decls.map Finding.conversion).filterMap Finding.type? = [] := by
    simp [Finding.type?]
  have hconversions : (decls.map Finding.conversion).filterMap Finding.conversion? = decls := by
    rw [List.filterMap_map]
    exact List.filterMap_some
  have hnotes : (decls.map Finding.conversion).filterMap Finding.note? = [] := by
    simp [Finding.note?]
  rw [SourceUnit.ofFindings, htypes, hconversions, hnotes]
  rfl

/-- **What is emitted reads back as the conversions it was made from**, one for each and in their
order, and as nothing else.  The header may say anything. -/
theorem parse_emission {style : EmissionStyle} {edges : List Synthesized} (hstyle : IsUsual style)
    (hprelude : style.prelude = ({} : EmissionStyle).prelude ∨ style.prelude = [])
    (hedges : ∀ e ∈ edges, IsPlain e) (path : Path) :
    ∃ emission unit,
      (plan style edges).Does (List.replicate edges.length .planEmission) (.ok emission) ∧
      Format.parseSource path emission.render = .ok unit ∧
      unit.types = [] ∧ unit.skipped = [] ∧
      (unit.conversions.map fun d => (d.source, d.target)) =
        edges.map fun e => (e.source, e.target) := by
  obtain ⟨afterHeader, hheader⟩ := @shows_header 1 style.header
  obtain ⟨afterPrelude, hshown⟩ := @shows_prelude afterHeader _ hprelude
  obtain ⟨decls, last, hends, hconversions⟩ := @shows_conversions afterPrelude _ _ hstyle hedges
  have hshows := (hheader.append hshown).append hconversions
  rw [← endLines_append, ← toList_render] at hshows
  have hparse := hshows.parseSource_eq path
  rw [List.append_nil, List.nil_append, ofFindings_conversions] at hparse
  exact ⟨_, _, does_plan fun e he => (hedges e he).isSound.isWritable, hparse, rfl, rfl, hends⟩

/-- A header that goes on like an implementation after a carriage return. -/
def misleading : EmissionStyle where
  header := "generated\rimpl From<X> for Y \x7b\x7d"

/-- The misleading header declares nothing. -/
theorem parse_emission_misleading :
    ∃ emission unit,
      (plan misleading [⟨slots, .ofSegments ["Out"], .ofSegments ["Mid"]⟩]).Does [.planEmission]
        (.ok emission) ∧
      Format.parseSource (.ofText "out.rs") emission.render = .ok unit ∧
      unit.types = [] ∧ unit.skipped = [] ∧
      (unit.conversions.map fun d => (d.source, d.target)) = [(slots, .ofSegments ["Out"])] := by
  have hstyle : IsUsual misleading := ⟨rfl, rfl⟩
  have hprelude : misleading.prelude = ({} : EmissionStyle).prelude := rfl
  have hout : (Reference.ofSegments ["Out"]).Plain := .path (by decide) (by decide) (by simp)
  have hmid : (Reference.ofSegments ["Mid"]).Plain := .path (by decide) (by decide) (by simp)
  have hedges : ∀ e ∈ [(⟨slots, .ofSegments ["Out"], .ofSegments ["Mid"]⟩ : Synthesized)],
      IsPlain e := by
    intro e he
    obtain rfl := List.mem_singleton.mp he
    exact ⟨slots_plain, hout, hmid⟩
  exact parse_emission hstyle (.inl hprelude) hedges (.ofText "out.rs")

end Emission

end ConversionClosure
