/-
The lifetimes that an implementation declares.

After its keyword an implementation declares the lifetimes of its source type.  They are collected
from the reference, and its text shows them as tokens.  The two agree at every node of a reference
that was read, but for the texts that a reference keeps as they are: nothing collects the lifetimes
inside these (`Sound.mem_tokens_iff`).

So the lifetimes of the source type are declared, each of them once.  The target and the type in
between are not looked at, and what only they name is not declared.
-/
import ConversionClosure.Proofs.Registering

namespace ConversionClosure

open Text Piece Token

variable {line : Nat} {t : Token}

namespace Reference

variable {r : Reference} {argument : Bool} {l text : String}

/-! ### Texts that are kept -/

/-- The texts that a node keeps as they were read: the segments of a path, the length of an array,
and a type known by its text, unless this is a lifetime. -/
def ownTexts (r : Reference) : List String :=
  match r.modifier with
  | .path => r.segments
  | .array => [r.length]
  | .verbatim => r.segments.filter fun text => !isLifetime text
  | _ => []

mutual

/-- The texts that a reference keeps at any depth. -/
def keptTexts : Reference → List String
  | ⟨modifier, segments, args, length, lifetime⟩ =>
    ownTexts ⟨modifier, segments, args, length, lifetime⟩ ++ keptTextsAll args

/-- The texts that a list of references keeps. -/
def keptTextsAll : List Reference → List String
  | [] => []
  | r :: rs => r.keptTexts ++ keptTextsAll rs

end

theorem mem_keptTextsAll {rs : List Reference} :
    text ∈ keptTextsAll rs ↔ ∃ r ∈ rs, text ∈ r.keptTexts := by
  induction rs with
  | nil => simp [keptTextsAll]
  | cons r rs ih => simp [keptTextsAll, ih]

theorem mem_keptTexts :
    text ∈ r.keptTexts ↔ text ∈ r.ownTexts ∨ ∃ a ∈ r.args, text ∈ a.keptTexts := by
  obtain ⟨modifier, segments, args, length, lifetime⟩ := r
  rw [keptTexts, List.mem_append, mem_keptTextsAll]

theorem exists_mem_keptTexts {p : String → Prop} : (∃ text ∈ r.keptTexts, p text) ↔
    (∃ text ∈ r.ownTexts, p text) ∨ ∃ a ∈ r.args, ∃ text ∈ a.keptTexts, p text := by
  constructor
  · rintro ⟨text, htext, hp⟩
    rcases mem_keptTexts.mp htext with hown | ⟨a, ha, hinside⟩
    · exact .inl ⟨text, hown, hp⟩
    · exact .inr ⟨a, ha, text, hinside, hp⟩
  · rintro (⟨text, hown, hp⟩ | ⟨a, ha, text, hinside, hp⟩)
    · exact ⟨text, mem_keptTexts.mpr (.inl hown), hp⟩
    · exact ⟨text, mem_keptTexts.mpr (.inr ⟨a, ha, hinside⟩), hp⟩

/-- A sound reference is legible when the texts that it keeps stand alone. -/
theorem Sound.legible (h : Sound argument r) (hkept : ∀ text ∈ r.keptTexts, StandsAlone text) :
    r.Legible := by
  have hargs : ∀ {r : Reference}, (∀ text ∈ r.keptTexts, StandsAlone text) →
      ∀ a ∈ r.args, ∀ text ∈ a.keptTexts, StandsAlone text :=
    fun hkept a ha text htext => hkept text (mem_keptTexts.mpr (.inr ⟨a, ha, htext⟩))
  induction h with
  | path _ _ ih =>
      refine .path (fun s hs => hkept s (mem_keptTexts.mpr (.inl hs))) ?_
      exact fun a ha => ih a ha (hargs hkept a ha)
  | ampersand exclusive hlifetime _ ih =>
      exact .ampersand exclusive hlifetime (ih (hargs hkept _ (List.mem_singleton_self _)))
  | star exclusive _ ih => exact .star exclusive (ih (hargs hkept _ (List.mem_singleton_self _)))
  | tuple _ ih => exact .tuple fun a ha => ih a ha (hargs hkept a ha)
  | slice _ ih => exact .slice (ih (hargs hkept _ (List.mem_singleton_self _)))
  | array _ ih =>
      refine .array (hkept _ (mem_keptTexts.mpr (.inl (List.mem_singleton_self _)))) ?_
      exact ih (hargs hkept _ (List.mem_singleton_self _))
  | @verbatim _ text _ =>
      refine .verbatim ?_
      by_cases hlifetime : Text.isLifetime text = true
      · exact standsAlone_lifetime hlifetime
      · exact hkept text (mem_keptTexts.mpr (.inl (by simp [ownTexts, ofText, hlifetime])))

/-! ### Lifetimes as tokens -/

theorem exists_mem_lifetimes (h : r.modifier ≠ .verbatim) {p : String → Prop} :
    (∃ l ∈ r.lifetimes, p l) ↔
      (r.lifetime ≠ "" ∧ p r.lifetime) ∨ ∃ a ∈ r.args, ∃ l ∈ a.lifetimes, p l := by
  constructor
  · rintro ⟨l, hl, hp⟩
    rcases (mem_lifetimes h).mp hl with ⟨rfl, hne⟩ | ⟨a, ha, hinside⟩
    · exact .inl ⟨hne, hp⟩
    · exact .inr ⟨a, ha, l, hinside, hp⟩
  · rintro (⟨hne, hp⟩ | ⟨a, ha, l, hinside, hp⟩)
    · exact ⟨_, (mem_lifetimes h).mpr (.inl ⟨rfl, hne⟩), hp⟩
    · exact ⟨l, (mem_lifetimes h).mpr (.inr ⟨a, ha, hinside⟩), hp⟩

theorem ne_mark (hkind : t.kind = .lifetime) : t ≠ mark line text := by
  rintro rfl
  cases hkind

theorem ne_name (hkind : t.kind = .lifetime) : t ≠ name line text := by
  rintro rfl
  cases hkind

/-- A lifetime is no mark between runs, so it stands in one of them. -/
theorem mem_intercalate_iff (hkind : t.kind = .lifetime) {runs : List (List Token)} :
    t ∈ [mark line text].intercalate runs ↔ ∃ run ∈ runs, t ∈ run := by
  constructor
  · exact fun h => (mem_of_mem_intercalate h).resolve_left (ne_mark hkind)
  · intro h
    obtain ⟨run, hrun, ht⟩ := h
    exact mem_intercalate_of_mem hrun ht

theorem mem_segmentTokens (hkind : t.kind = .lifetime) {segments : List String} :
    t ∈ segmentTokens line segments ↔ ∃ s ∈ segments, t ∈ Token.ofText line s := by
  simp [segmentTokens, mem_intercalate_iff hkind]

theorem mem_argumentTokens (hkind : t.kind = .lifetime) {runs : List (List Token)} :
    t ∈ argumentTokens line runs ↔ ∃ run ∈ runs, t ∈ run := by
  unfold argumentTokens commaTokens
  cases runs with
  | nil => simp
  | cons run runs => simp [mem_intercalate_iff hkind, ne_mark hkind]

theorem mem_elementTokens (hkind : t.kind = .lifetime) {runs : List (List Token)} :
    t ∈ elementTokens line runs ↔ ∃ run ∈ runs, t ∈ run := by
  unfold elementTokens commaTokens
  by_cases hone : runs.length = 1
  · obtain ⟨run, rfl⟩ := List.length_eq_one_iff.mp hone
    simp [ne_mark hkind]
  · rw [if_neg hone, mem_intercalate_iff hkind]

theorem mem_lifetimeTokens (h : l = "" ∨ isLifetime l = true) :
    t ∈ lifetimeTokens line l ↔ l ≠ "" ∧ isLifetime l = true ∧ t = ⟨.lifetime, l, line⟩ := by
  unfold lifetimeTokens
  by_cases hempty : l = ""
  · simp [hempty]
  · simp [hempty, h.resolve_left hempty]

/-- A lifetime in the text of a node is its own, or it stands in a text that the node keeps or in
one of its arguments. -/
theorem Sound.mem_tokens (h : Sound argument r) (hverbatim : r.modifier ≠ .verbatim)
    (hkind : t.kind = .lifetime) : t ∈ r.tokens line ↔ t ∈ lifetimeTokens line r.lifetime ∨
      (∃ text ∈ r.ownTexts, t ∈ Token.ofText line text) ∨ ∃ a ∈ r.args, t ∈ a.tokens line := by
  cases h with
  | path _ _ =>
      simp [tokens, ownTexts, lifetimeTokens, mem_segmentTokens hkind, mem_argumentTokens hkind]
  | ampersand exclusive _ _ =>
      cases exclusive <;>
        simp [tokens, ownTexts, Reference.ampersand, ne_mark hkind, ne_name hkind]
  | star exclusive _ =>
      cases exclusive <;>
        simp [tokens, ownTexts, Reference.star, lifetimeTokens, ne_mark hkind, ne_name hkind]
  | tuple _ =>
      simp [tokens, ownTexts, lifetimeTokens, ne_mark hkind, mem_elementTokens hkind]
  | slice _ => simp [tokens, ownTexts, lifetimeTokens, ne_mark hkind]
  | array _ =>
      simp [tokens, ownTexts, lifetimeTokens, ne_mark hkind, or_comm]
  | verbatim _ => exact absurd rfl hverbatim

/-- A type that is known by its text is a lifetime, or it keeps the text. -/
theorem mem_tokens_ofText : t ∈ (ofText text).tokens line ↔
    (∃ l ∈ (ofText text).lifetimes, isLifetime l = true ∧ t = ⟨.lifetime, l, line⟩) ∨
      ∃ s ∈ (ofText text).keptTexts, t ∈ Token.ofText line s := by
  have htokens : (ofText text).tokens line = Token.ofText line text := rfl
  rw [htokens]
  by_cases hlifetime : isLifetime text = true
  · obtain ⟨c, cs, htext, -, -⟩ := isLifetime_iff.mp hlifetime
    rw [ofText_lifetime hlifetime]
    simp [ofText, lifetimes, keptTexts, keptTextsAll, ownTexts, hlifetime, htext]
  · simp [ofText, lifetimes, keptTexts, keptTextsAll, ownTexts, hlifetime]

/-- **The lifetimes in the text of a sound reference are those that are collected from it, and what
stands in the texts that it keeps.** -/
theorem Sound.mem_tokens_iff (h : Sound argument r) (hkind : t.kind = .lifetime) :
    t ∈ r.tokens line ↔
      (∃ l ∈ r.lifetimes, Text.isLifetime l = true ∧ t = ⟨.lifetime, l, line⟩) ∨
        ∃ text ∈ r.keptTexts, t ∈ Token.ofText line text := by
  induction r using Reference.induction generalizing argument with
  | node r ih =>
      by_cases hverbatim : r.modifier = .verbatim
      · obtain ⟨text, rfl⟩ := h.exists_ofText hverbatim
        exact mem_tokens_ofText
      · have hinside : (∃ a ∈ r.args, t ∈ a.tokens line) ↔ ∃ a ∈ r.args,
            (∃ l ∈ a.lifetimes, Text.isLifetime l = true ∧ t = ⟨.lifetime, l, line⟩) ∨
              ∃ text ∈ a.keptTexts, t ∈ Token.ofText line text :=
          exists_congr fun a => and_congr_right fun ha => ih a ha (h.args a ha)
        rw [h.mem_tokens hverbatim hkind, mem_lifetimeTokens h.isLifetime, hinside,
          exists_mem_lifetimes hverbatim, exists_mem_keptTexts]
        simp only [and_or_left, exists_or]
        rw [← or_assoc, or_or_or_comm]

/-- What is collected from a sound reference is a lifetime, or the reference keeps it as a text. -/
theorem Sound.isLifetime_or_kept (h : Sound argument r) (hl : l ∈ r.lifetimes) :
    Text.isLifetime l = true ∨ l ∈ r.keptTexts := by
  induction r using Reference.induction generalizing argument with
  | node r ih =>
      by_cases hverbatim : r.modifier = .verbatim
      · obtain ⟨text, rfl⟩ := h.exists_ofText hverbatim
        obtain ⟨rfl, -⟩ : l = text ∧ l.toList.head? = some '\'' := by
          simpa [ofText, lifetimes] using hl
        by_cases hlifetime : Text.isLifetime l = true
        · exact .inl hlifetime
        · exact .inr (mem_keptTexts.mpr (.inl (by simp [ownTexts, ofText, hlifetime])))
      · rcases (mem_lifetimes hverbatim).mp hl with ⟨rfl, hne⟩ | ⟨a, ha, hinside⟩
        · exact .inl (h.isLifetime.resolve_left hne)
        · refine (ih a ha (h.args a ha) hinside).imp_right fun hkept => ?_
          exact mem_keptTexts.mpr (.inr ⟨a, ha, hkept⟩)

end Reference

namespace Synthesized

/-- The three types of a conversion. -/
def references (e : Synthesized) : List Reference := [e.source, e.target, e.via]

end Synthesized

namespace Emission

open Reference

variable {style : EmissionStyle} {e : Synthesized}

/-! ### Implementations of sound conversions -/

theorem isLegible_of_sound (h : IsSound e)
    (hkept : ∀ r ∈ e.references, ∀ text ∈ r.keptTexts, StandsAlone text) : IsLegible e where
  source := h.source.legible (hkept _ (by simp [Synthesized.references]))
  target := h.target.legible (hkept _ (by simp [Synthesized.references]))
  via := h.via.legible (hkept _ (by simp [Synthesized.references]))
  lifetimes := by
    intro l hl
    rcases h.source.isLifetime_or_kept (mem_declaredLifetimes.mp hl).1 with hlifetime | htext
    · exact standsAlone_lifetime hlifetime
    · exact hkept e.source (by simp [Synthesized.references]) l htext

theorem mem_tokens_fromTrait {source : Reference} (hkind : t.kind = .lifetime) :
    t ∈ (fromTrait source).tokens line ↔ t ∈ source.tokens line := by
  have hsegments : ∀ s ∈ ["std", "convert", "From"], Token.ofText line s = [name line s] := by
    intro s hs
    refine ofText_identifier ?_
    revert s
    decide
  have hnone : ¬ ∃ s ∈ ["std", "convert", "From"], t ∈ Token.ofText line s := by
    rintro ⟨s, hs, ht⟩
    rw [hsegments s hs] at ht
    exact ne_name hkind (List.mem_singleton.mp ht)
  rw [fromTrait, tokens, List.mem_append, mem_segmentTokens hkind, or_iff_right hnone,
    mem_argumentTokens hkind]
  simp

theorem mem_callTokens {source target : Reference} (hkind : t.kind = .lifetime) :
    t ∈ callTokens line source target ↔ t ∈ target.tokens line ∨ t ∈ source.tokens line := by
  simp [callTokens, mem_tokens_fromTrait hkind, ne_mark hkind, ne_name hkind]

theorem mem_bodyTokens (hkind : t.kind = .lifetime) : t ∈ bodyTokens line e ↔
    t ∈ e.source.tokens line ∨ (t ∈ e.target.tokens (line + 1) ∨ t ∈ e.via.tokens (line + 1)) ∨
      t ∈ e.via.tokens (line + 2) ∨ t ∈ e.source.tokens (line + 2) := by
  simp only [bodyTokens, List.mem_cons, List.mem_append, List.not_mem_nil, or_false,
    ne_mark hkind, ne_name hkind, false_or, mem_callTokens hkind]

/-- Whatever is declared stands in the source type too. -/
theorem mem_source_of_mem_parameterTokens (h : IsSound e) (hkind : t.kind = .lifetime)
    (ht : t ∈ parameterTokens line e.source.declaredLifetimes) : t ∈ e.source.tokens line := by
  rw [parameterTokens, mem_argumentTokens hkind] at ht
  obtain ⟨run, hrun, ht⟩ := ht
  obtain ⟨l, hl, rfl⟩ := List.mem_map.mp hrun
  have hcollected : l ∈ e.source.lifetimes := (mem_declaredLifetimes.mp hl).1
  refine (h.source.mem_tokens_iff hkind).mpr ?_
  by_cases hlifetime : isLifetime l = true
  · rw [ofText_lifetime hlifetime, List.mem_singleton] at ht
    exact .inl ⟨l, hcollected, hlifetime, ht⟩
  · exact .inr ⟨l, (h.source.isLifetime_or_kept hcollected).resolve_left hlifetime, ht⟩

/-- The lifetimes in the text of an implementation are those of its types. -/
theorem mem_conversionTokens (h : IsSound e) (hkind : t.kind = .lifetime)
    (ht : t ∈ conversionTokens line e) :
    (∃ line', t ∈ e.source.tokens line') ∨
      ∃ line', t ∈ e.target.tokens line' ∨ t ∈ e.via.tokens line' := by
  simp only [conversionTokens, implTokens, List.mem_cons, List.mem_append, List.not_mem_nil,
    or_false, ne_mark hkind, ne_name hkind, false_or, mem_tokens_fromTrait hkind,
    mem_bodyTokens hkind] at ht
  rcases ht with hdeclared | hsource | htarget | hsource | hcall | hvia | hsource
  · exact .inl ⟨_, mem_source_of_mem_parameterTokens h hkind hdeclared⟩
  · exact .inl ⟨_, hsource⟩
  · exact .inr ⟨_, .inl htarget⟩
  · exact .inl ⟨_, hsource⟩
  · exact .inr ⟨_, hcall⟩
  · exact .inr ⟨_, .inr hvia⟩
  · exact .inl ⟨_, hsource⟩

/-- A lifetime that the source type shows is declared, unless it is implicit or stands in a text
that is kept. -/
theorem declared_of_shown (h : IsSound e) (hkind : t.kind = .lifetime)
    (ht : t ∈ e.source.tokens line) :
    t.text ∈ implicitLifetimes ∨ t.text ∈ e.source.declaredLifetimes ∨
      ∃ text ∈ e.source.keptTexts, t ∈ Token.ofText line text := by
  rcases (h.source.mem_tokens_iff hkind).mp ht with ⟨l, hl, -, rfl⟩ | hkept
  · by_cases himplicit : l ∈ implicitLifetimes
    · exact .inl himplicit
    · exact .inr (.inl (mem_declaredLifetimes.mpr ⟨hl, himplicit⟩))
  · exact .inr (.inr hkept)

/-- What an implementation declares after its keyword, against the tokens of its text. -/
structure DeclaresSource (e : Synthesized) : Prop where
  /-- There is a text. -/
  writable : isWritable e = true
  /-- No name is declared twice. -/
  nodup : e.source.declaredLifetimes.Nodup
  /-- A lifetime that is declared is not implicit, and the source type shows it. -/
  shown : ∀ l ∈ e.source.declaredLifetimes, isLifetime l = true →
    l ∉ implicitLifetimes ∧ ∀ line, ⟨.lifetime, l, line⟩ ∈ e.source.tokens line
  /-- A lifetime that the source type shows is declared, unless it is implicit or stands in a text
  that is kept. -/
  declared : ∀ line, ∀ t ∈ e.source.tokens line, t.kind = .lifetime →
    t.text ∈ implicitLifetimes ∨ t.text ∈ e.source.declaredLifetimes ∨
      ∃ text ∈ e.source.keptTexts, t ∈ Token.ofText line text
  /-- If the texts that are kept stand alone, then the text of the implementation has the tokens of
  its parts.  A lifetime among them that is neither declared nor implicit stands in a text that the
  source type keeps, or in one of the other types. -/
  tokens : ∀ style, IsUsual style →
    (∀ r ∈ e.references, ∀ text ∈ r.keptTexts, StandsAlone text) →
      lex (conversionText style e) = .ok (conversionTokens 1 e) ∧
        ∀ t ∈ conversionTokens 1 e, t.kind = .lifetime →
          t.text ∈ implicitLifetimes ∨ t.text ∈ e.source.declaredLifetimes ∨
            ∃ line, (∃ text ∈ e.source.keptTexts, t ∈ Token.ofText line text) ∨
              t ∈ e.target.tokens line ∨ t ∈ e.via.tokens line

theorem declaresSource_of_sound (h : IsSound e) : DeclaresSource e where
  writable := h.isWritable
  nodup := nodup_declaredLifetimes e.source
  shown := by
    intro l hl hlifetime
    obtain ⟨hcollected, hexplicit⟩ := mem_declaredLifetimes.mp hl
    refine ⟨hexplicit, fun line => ?_⟩
    exact (h.source.mem_tokens_iff rfl).mpr (.inl ⟨l, hcollected, hlifetime, rfl⟩)
  declared := fun _ _ ht hkind => declared_of_shown h hkind ht
  tokens := by
    intro style hstyle hkept
    refine ⟨lex_conversionText hstyle (isLegible_of_sound h hkept), ?_⟩
    intro t ht hkind
    rcases mem_conversionTokens h hkind ht with ⟨line, hsource⟩ | hothers
    · refine (declared_of_shown h hkind hsource).imp_right fun hex => hex.imp_right ?_
      exact fun hkept => ⟨line, .inl hkept⟩
    · obtain ⟨line, hothers⟩ := hothers
      exact .inr (.inr ⟨line, .inr hothers⟩)

/-! ### What is synthesized from declarations -/

variable {units : List SourceUnit} {name : String} {registry : Registry} {d : Catalog} {c : Closure}
  {scope scope' : Scope} {b b' b₁ b₁' : Budget}

/-- **An implementation declares the lifetimes of its source type**, each of them once. -/
theorem declares_source (hread : ∀ unit ∈ units, unit.IsRead)
    (hbuild : (Registry.build units name).runWith scope b = (.ok registry, b'))
    (hclosure : (Closure.synthesize registry.graph d).runWith scope' b₁ = (.ok c, b₁'))
    (he : e ∈ c.edges) : DeclaresSource e := by
  have hsound : ∀ unit ∈ units, unit.IsSound := fun unit hunit => (hread unit hunit).isSound
  obtain ⟨g, hdoes, hg⟩ := Registry.does_build hsound name
  cases hdoes.eq_of_runWith hbuild
  have href := Registry.sound_of_mem_references hsound hg
  exact declaresSource_of_sound ((Closure.settled_of_runWith hclosure).isSound href he)

/-! ### A type in between that is borrowed

Two lifetimes are named on the way from the source to the target, one of them only by the type in
between.
-/

namespace Lending

/-- An array of four references. -/
def source : Reference :=
  { modifier := .array, length := "4", args := [
    { modifier := .shared, lifetime := "'s", args := [.ofSegments ["A"]] }] }

/-- The type in between, which is borrowed. -/
def via : Reference := { modifier := .shared, lifetime := "'a", args := [.ofSegments ["B"]] }

def target : Reference := .ofSegments ["C"]

/-- The file that declares both conversions. -/
def unit : SourceUnit where
  path := .ofText "a.rs"
  types := [{ name := "C" }]
  conversions := [
    { trait := { segments := ["From"], args := [source] }, source, target := via,
      params := ["'a", "'s"] },
    { trait := { segments := ["From"], args := [via] }, source := via, target, params := ["'a"] }]

def declared : Catalog where
  decls := [{ name := "C" }]
  nodup := by decide

theorem isRead : ∀ u ∈ [unit], u.IsRead := by
  have hparse : Format.parseSource (.ofText "a.rs") ("struct C;\n" ++
      "impl<'a, 's> From<[&'s A; 4]> for &'a B \x7b\x7d\n" ++
      "impl<'a> From<&'a B> for C \x7b\x7d\n") = .ok unit := by decide +kernel
  intro u hu
  obtain rfl := List.mem_singleton.mp hu
  exact Format.isRead_of_parseSource hparse

theorem acceptedPairs_eq : Registry.acceptedPairs ConversionDecl.defaultTrait [unit] =
    [(source, via), (via, target)] := by decide +kernel

/-- The conversion that is synthesized. -/
def edge : Synthesized := ⟨source, target, via⟩

theorem mem_edges {g : Graph} {c : Closure} (hg : g.Joins [(source, via), (via, target)])
    (h : Closure.Settled g declared c) : edge ∈ c.edges := by
  have hunique : Relator.RightUnique g.Adj := by
    have hall : ∀ p ∈ [(source, via), (via, target)], ∀ q ∈ [(source, via), (via, target)],
        p.1.type = q.1.type → p.2.type = q.2.type := by decide
    exact Graph.adj_rightUnique fun e he f hf => hall _ (hg.pair_mem e he) _ (hg.pair_mem f hf)
  have hroute : OnlyRoute g.Adj source.type target.type ([] ++ [via.type, target.type]) := by
    have hfirst : g.Adj source.type via.type := hg.adj_iff.mpr (by decide)
    have hsecond : g.Adj via.type target.type := hg.adj_iff.mpr (by decide)
    refine SimpleRoute.onlyRoute_of_rightUnique hunique ⟨?_, by decide, rfl⟩
    exact .cons_cons hfirst (.cons_cons hsecond (.singleton _))
  have hnone : ¬ g.Adj source.type target.type := by
    rw [hg.adj_iff]
    decide
  obtain ⟨e, he, hends, hvia⟩ := h.edges_iff.mpr ⟨hnone, by decide, [], hroute⟩
  obtain ⟨hsource, htarget⟩ := Prod.mk.inj hends
  -- the graph has one reference for each of the three types
  have href : ∀ r ∈ g.references, ∀ s ∈ [source, via, target], r.type = s.type → r = s := by
    have hall : ∀ p ∈ [(source, via), (via, target)], ∀ r, r = p.1 ∨ r = p.2 →
        ∀ s ∈ [source, via, target], r.type = s.type → r = s := by
      rintro p hp r (rfl | rfl) <;> revert p <;> decide
    intro r hr
    obtain ⟨f, hf, hends⟩ := List.mem_flatMap.mp hr
    exact hall f.pair (hg.pair_mem f hf) r (by simpa [Edge.pair] using hends)
  obtain ⟨hmem, hmem', hmem''⟩ := h.mem_references he
  obtain ⟨source', target', via'⟩ := e
  obtain rfl : source' = source := href _ hmem source (by simp) hsource
  obtain rfl : target' = target := href _ hmem' target (by simp) htarget
  obtain rfl : via' = via := href _ hmem'' via (by simp) hvia
  exact he

/-- The file is read, and the closure of its graph comes to the conversion. -/
theorem exists_runs : ∃ scope b registry b' scope' b₁ c b₁',
    (Registry.build [unit] ConversionDecl.defaultTrait).runWith scope b = (.ok registry, b') ∧
      (Closure.synthesize registry.graph declared).runWith scope' b₁ = (.ok c, b₁') ∧
        edge ∈ c.edges := by
  have hsound : ∀ u ∈ [unit], u.IsSound := fun u hu => (isRead u hu).isSound
  obtain ⟨g, hbuild, hg⟩ := Registry.does_build hsound ConversionDecl.defaultTrait
  obtain ⟨scope', b₁, c, b₁', hclosure⟩ := Closure.exists_runWith declared
    (Graph.hasTexts_of_sound (Registry.sound_of_mem_references hsound hg))
  rw [acceptedPairs_eq] at hg
  obtain ⟨b', hrun⟩ := hbuild.completes_unhurried .registry 100 (by decide)
  exact ⟨_, _, _, b', scope', b₁, c, b₁', hrun, hclosure,
    mem_edges hg (Closure.settled_of_runWith hclosure)⟩

theorem isSound : IsSound edge where
  source := .array (.ampersand false (.inr (by decide)) (.path (by decide) (by simp)))
  target := .path (by decide) (by simp)
  via := .ampersand false (.inr (by decide)) (.path (by decide) (by simp))

theorem standsAlone : ∀ r ∈ edge.references, ∀ text ∈ r.keptTexts, StandsAlone text := by
  have hall : ∀ r ∈ edge.references, ∀ text ∈ r.keptTexts,
      isIdentifier text = true ∨ isNumber text = true := by decide
  exact fun r hr text htext => Plain.standsAlone_length (hall r hr text htext)

end Lending

/-- The implementation declares `'s`, which stands inside the array; the length of this is a text
that is kept. -/
theorem declares_source_lending : (∀ u ∈ [Lending.unit], u.IsRead) ∧
    (∃ scope b registry b' scope' b₁ c b₁',
      (Registry.build [Lending.unit] ConversionDecl.defaultTrait).runWith scope b =
          (.ok registry, b') ∧
        (Closure.synthesize registry.graph Lending.declared).runWith scope' b₁ = (.ok c, b₁') ∧
          Lending.edge ∈ c.edges) ∧
    DeclaresSource Lending.edge ∧ Lending.edge.source.declaredLifetimes = ["'s"] ∧
      ∀ r ∈ Lending.edge.references, ∀ text ∈ r.keptTexts, StandsAlone text := by
  have hruns := Lending.exists_runs
  refine ⟨Lending.isRead, hruns, ?_, by decide, Lending.standsAlone⟩
  obtain ⟨scope, b, registry, b', scope', b₁, c, b₁', hbuild, hclosure, he⟩ := hruns
  exact declares_source Lending.isRead hbuild hclosure he

/-- Its text shows `'a` as well, which is not declared. -/
theorem lifetime_of_via_undeclared : (∀ u ∈ [Lending.unit], u.IsRead) ∧
    (∃ scope b registry b' scope' b₁ c b₁',
      (Registry.build [Lending.unit] ConversionDecl.defaultTrait).runWith scope b =
          (.ok registry, b') ∧
        (Closure.synthesize registry.graph Lending.declared).runWith scope' b₁ = (.ok c, b₁') ∧
          Lending.edge ∈ c.edges) ∧
    ∃ ts, lex (conversionText {} Lending.edge) = .ok ts ∧
      ∃ t ∈ ts, t.kind = .lifetime ∧ t.text ∉ implicitLifetimes ∧
        t.text ∉ Lending.edge.source.declaredLifetimes := by
  have hshown : (⟨.lifetime, "'a", 3⟩ : Token) ∈ conversionTokens 1 Lending.edge := by
    decide +kernel
  refine ⟨Lending.isRead, Lending.exists_runs, _, ?_, _, hshown, rfl, by decide, by decide⟩
  exact lex_conversionText ⟨rfl, rfl⟩ (isLegible_of_sound Lending.isSound Lending.standsAlone)

end Emission

end ConversionClosure
