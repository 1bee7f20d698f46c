/-
Carriage returns.

A source file is read without carriage returns, and nothing on the way from there to the generated
text brings one in.  Tokens are stretches of the text, what is read of them is made of their texts
and of fixed marks, and an edge of the graph joins two such types.  The header is cut at its carriage
returns.  So the generated text has one only if the trait path or the prelude has.
-/
import ConversionClosure.Proofs.Bytes
import ConversionClosure.Proofs.Emitting
import ConversionClosure.Proofs.Limiting
import ConversionClosure.Proofs.Partition

namespace ConversionClosure

open Text Token TokenReader

/-! ### Texts put together -/

namespace NoReturn

variable {a b : String}

@[simp] theorem append_iff : NoReturn (a ++ b) ↔ NoReturn a ∧ NoReturn b := by
  rw [NoReturn, String.toList_append, List.mem_append, not_or]
  rfl

theorem append (ha : NoReturn a) (hb : NoReturn b) : NoReturn (a ++ b) :=
  append_iff.mpr ⟨ha, hb⟩

theorem intercalate {sep : String} {texts : List String} (hsep : NoReturn sep)
    (h : ∀ s ∈ texts, NoReturn s) : NoReturn (sep.intercalate texts) := by
  induction texts with
  | nil => exact List.not_mem_nil
  | cons s texts ih =>
      obtain ⟨hs, hrest⟩ := List.forall_mem_cons.mp h
      cases texts with
      | nil => simpa using hs
      | cons s' texts =>
          rw [String.intercalate_cons_cons]
          exact (hs.append hsep).append (ih hrest)

/-- A text that a token writes has none if the tokens have none. -/
theorem join {ts : List Token} (h : ∀ t ∈ ts, NoReturn t.text) : NoReturn (join ts) := by
  induction ts with
  | nil => exact List.not_mem_nil
  | cons t ts ih =>
      obtain ⟨ht, hrest⟩ := List.forall_mem_cons.mp h
      cases ts with
      | nil => exact ht
      | cons u ts =>
          have hblank : NoReturn (if needsBlank t u then " " else "") := by
            split <;> decide
          exact (ht.append hblank).append (ih hrest)

/-- A token is a stretch of the text that it comes from. -/
theorem of_lex {text : String} {ts : List Token} (htext : NoReturn text)
    (h : lex text = .ok ts) : ∀ t ∈ ts, NoReturn t.text := by
  obtain ⟨ps, hps⟩ := Piece.partitions_of_lex h
  intro t ht hmem
  have htoken : (t.kind, t.text.toList) ∈ ps.filterMap Piece.token? :=
    hps.tokens_eq ▸ List.mem_map.mpr ⟨t, ht, rfl⟩
  obtain ⟨p, hp, htoken⟩ := List.mem_filterMap.mp htoken
  refine htext ?_
  rw [← hps.cover_eq, Piece.cover, List.mem_flatMap]
  cases p with
  | filler kind cs => cases htoken
  | token kind cs =>
      obtain ⟨-, rfl⟩ := Prod.mk.inj (Option.some.inj htoken)
      exact ⟨_, hp, hmem⟩

end NoReturn

/-! ### References -/

namespace Reference

variable {r s : Reference}

/-- No text inside the reference has a carriage return. -/
inductive NoReturns : Reference → Prop
  | node {modifier : Modifier} {segments : List String} {args : List Reference}
      {length lifetime : String} (hsegments : ∀ s ∈ segments, NoReturn s)
      (hargs : ∀ a ∈ args, NoReturns a) (hlength : NoReturn length)
      (hlifetime : NoReturn lifetime) : NoReturns ⟨modifier, segments, args, length, lifetime⟩

theorem noReturn_empty : NoReturn "" := List.not_mem_nil

namespace NoReturns

theorem ofText {text : String} (h : NoReturn text) : NoReturns (ofText text) :=
  .node (List.forall_mem_singleton.mpr h) (by simp) noReturn_empty noReturn_empty

theorem around {modifier : Modifier} {lifetime length : String} (h : NoReturns r)
    (hlength : NoReturn length) (hlifetime : NoReturn lifetime) :
    NoReturns { modifier, args := [r], length, lifetime } :=
  .node (by simp) (List.forall_mem_singleton.mpr h) hlength hlifetime

theorem render (h : NoReturns r) : NoReturn r.render := by
  induction h with
  | @node modifier segments args length lifetime hsegments _ hlength hlifetime ih =>
      have hcommas : NoReturn (commaSeparated (args.map Reference.render)) :=
        .intercalate (by decide) fun s hs => by
          obtain ⟨a, ha, rfl⟩ := List.mem_map.mp hs
          exact ih a ha
      have hfirst : NoReturn ((args.map Reference.render).headD "") := by
        cases args with
        | nil => exact noReturn_empty
        | cons a args => exact ih a (by simp)
      have hhead : NoReturn (segments.headD "") := by
        cases segments with
        | nil => exact noReturn_empty
        | cons s segments => exact hsegments s (by simp)
      have hlife : NoReturn (lifetimeText lifetime) := by
        unfold lifetimeText
        split
        · exact noReturn_empty
        · exact hlifetime.append (by decide)
      have hpath : NoReturn ("::".intercalate segments) := .intercalate (by decide) hsegments
      have hamp : NoReturn "&" := by decide
      have hopen : NoReturn "(" := by decide
      have hsquare : NoReturn "[" := by decide
      rw [Reference.render.eq_def]
      simp only [renderAll_eq_map]
      split
      · refine hpath.append ?_
        split
        · exact noReturn_empty
        · exact (NoReturn.append (by decide) hcommas).append (by decide)
      · exact (hamp.append hlife).append hfirst
      · exact ((hamp.append hlife).append (by decide)).append hfirst
      · exact NoReturn.append (by decide) hfirst
      · exact NoReturn.append (by decide) hfirst
      · split
        · exact (hopen.append hfirst).append (by decide)
        · exact (hopen.append hcommas).append (by decide)
      · exact (hsquare.append hfirst).append (by decide)
      · exact (((hsquare.append hfirst).append (by decide)).append hlength).append (by decide)
      · exact hhead
      · exact hhead

theorem replaceHead {segments : List String} {args : List Reference} {length lifetime : String}
    (hnode : NoReturns ⟨.path, segments, args, length, lifetime⟩) (hs : NoReturns s) :
    NoReturns (replaceHead ⟨.path, segments, args, length, lifetime⟩ s) := by
  rcases replaceHead_cases ⟨.path, segments, args, length, lifetime⟩ s with
    hstays | halone | ⟨first, more, hcons, -, hjoined⟩
  · rw [hstays]
    exact hnode
  · rw [halone]
    exact hs
  · obtain ⟨hs', -, -, -⟩ := hs
    obtain ⟨hsegments, hargs, -, -⟩ := hnode
    obtain rfl : segments = first :: more := hcons
    rw [hjoined]
    refine .node (fun t ht => ?_) hargs noReturn_empty noReturn_empty
    rcases List.mem_append.mp ht with ht | ht
    · exact hs' t ht
    · exact hsegments t (List.mem_cons_of_mem first ht)

/-- With a type in the place of `Self` there is nothing new in the texts. -/
theorem replaceSelf (h : NoReturns r) (hs : NoReturns s) : NoReturns (r.replaceSelf s) := by
  induction h with
  | @node modifier segments args length lifetime hsegments hargs hlength hlifetime ih =>
      have hall : ∀ a ∈ args.map (·.replaceSelf s), NoReturns a := by simpa using ih
      rw [Reference.replaceSelf.eq_def]
      simp only [replaceSelfAll_eq_map]
      split
      · exact replaceHead (.node hsegments hall hlength hlifetime) hs
      · exact .node hsegments hargs hlength hlifetime
      · exact .node hsegments hall hlength hlifetime

theorem lifetimes (h : NoReturns r) : ∀ l ∈ r.lifetimes, NoReturn l := by
  induction h with
  | @node modifier segments args length lifetime hsegments _ _ hlifetime ih =>
      intro l hl
      by_cases hverbatim : modifier = .verbatim
      · subst hverbatim
        rw [Reference.lifetimes] at hl
        rcases List.mem_append.mp hl with hl | hl
        · split at hl
          · cases hl
          · exact List.mem_singleton.mp hl ▸ hlifetime
        · have hhead := (List.mem_filter.mp hl).1
          exact hsegments l (List.mem_of_mem_head? (Option.mem_toList.mp hhead))
      · rcases (mem_lifetimes hverbatim).mp hl with ⟨rfl, -⟩ | ⟨a, ha, hl⟩
        · exact hlifetime
        · exact ih a ha l hl

end NoReturns

theorem noReturn_segmentText {segment : String} {args : List Reference} (h : NoReturn segment)
    (hargs : ∀ a ∈ args, NoReturns a) : NoReturn (segmentText segment args) := by
  unfold segmentText
  split
  · exact h
  · have hcommas : NoReturn (commaSeparated (args.map Reference.render)) :=
      .intercalate (by decide) fun s hs => by
        obtain ⟨a, ha, rfl⟩ := List.mem_map.mp hs
        exact (hargs a ha).render
    exact ((h.append (by decide)).append hcommas).append (by decide)

theorem noReturn_joinSegments {segments : List String} {segment : String}
    (hsegments : ∀ s ∈ segments, NoReturn s) (h : NoReturn segment) :
    NoReturn (joinSegments (segments ++ [segment])) :=
  .intercalate (by decide) fun s hs => by
    rcases List.mem_append.mp hs with hs | hs
    · exact hsegments s hs
    · exact List.mem_singleton.mp hs ▸ h

/-- What is read of tokens without carriage returns has none. -/
theorem inherits_noReturn :
    Inherits (fun t => NoReturn t.text) NoReturn fun _ r => NoReturns r where
  name ht _ := ht
  withArguments hs hargs := noReturn_segmentText hs hargs
  path hsegments hs hargs := .node (fun s hmem => (List.mem_append.mp hmem).elim (hsegments s)
    fun hlast => List.mem_singleton.mp hlast ▸ hs) hargs noReturn_empty noReturn_empty
  ampersand _ lifetime _ hlifetime hinner := by
    refine .around hinner noReturn_empty ?_
    rcases hlifetime with rfl | ⟨t, ht, -, rfl⟩
    · exact noReturn_empty
    · exact ht
  star _ _ hinner := .around hinner noReturn_empty noReturn_empty
  tuple hargs := .node (by simp) hargs noReturn_empty noReturn_empty
  slice hinner := .around hinner noReturn_empty noReturn_empty
  array hinner hrun _ := .around hinner (.join hrun) noReturn_empty
  verbatim _ hts := .ofText (.join hts)
  expansion hsegments hs hbody := .ofText
    (((noReturn_joinSegments hsegments hs).append (by decide)).append (.join hbody))
  call hsegments hs hbody :=
    .ofText (noReturn_joinSegments hsegments (hs.append (.join hbody)))
  callTo hsegments hs hbody hresult := .ofText (noReturn_joinSegments hsegments
    (((hs.append (.join hbody)).append (by decide)).append hresult.render))
  argument h := h
  run hrun _ := .ofText (.join hrun)
  arguments h _ := by
    obtain ⟨-, hargs, -, -⟩ := h
    exact hargs

end Reference

/-! ### The generated text -/

namespace Emission

variable {style : EmissionStyle}

/-- The types of a conversion have no carriage return in their texts. -/
structure NoReturns (e : Synthesized) : Prop where
  source : e.source.NoReturns
  target : e.target.NoReturns
  via : e.via.NoReturns

theorem noReturn_joinLines {lines : List String} (h : ∀ l ∈ lines, NoReturn l) :
    NoReturn (joinLines lines) := .intercalate (by decide) h

/-- The lines of a header are cut at its carriage returns. -/
theorem noReturn_headerLines (header : String) : ∀ l ∈ headerLines header, NoReturn l := by
  intro l hl
  obtain ⟨line, hline, rfl⟩ := List.mem_map.mp hl
  have hreturn : NoReturn line := not_mem_lines (by decide) header line hline
  have hcomment : NoReturn ("// " ++ line) := .append (by decide) hreturn
  intro hmem
  rw [trimEnd, String.toList_ofList] at hmem
  exact hcomment (mem_of_mem_trimEndChars hmem)

theorem noReturn_callText (htrait : NoReturn style.traitPath) {source target : Reference}
    (hsource : source.NoReturns) (htarget : target.NoReturns) :
    NoReturn (callText style source target) := by
  have hopen : NoReturn "<" := by decide
  unfold callText
  exact (((((hopen.append htarget.render).append (by decide)).append htrait).append
    (by decide)).append hsource.render).append (by decide)

theorem noReturn_generics (r : Reference) (h : r.NoReturns) :
    NoReturn (generics r.declaredLifetimes) := by
  unfold generics
  split
  · exact Reference.noReturn_empty
  · have hlifetimes : NoReturn (", ".intercalate r.declaredLifetimes) :=
      .intercalate (by decide) fun l hl =>
        h.lifetimes l (Reference.mem_declaredLifetimes.mp hl).1
    exact (NoReturn.append (by decide) hlifetimes).append (by decide)

theorem noReturn_conversionText (htrait : NoReturn style.traitPath)
    (hindent : NoReturn style.indent) {e : Synthesized} (he : NoReturns e) :
    NoReturn (conversionText style e) := by
  have hsource := he.source.render
  have htarget := he.target.render
  have hgenerics := noReturn_generics e.source he.source
  have houter := noReturn_callText htrait he.via he.target
  have hinner := noReturn_callText htrait he.source he.via
  have htexts : ∀ s ∈ ["impl", " ", "<", "> for ", " \x7b", "fn from(value: ", ") -> Self \x7b",
      "value),", ")", "\x7d"], NoReturn s := by decide
  simp only [List.forall_mem_cons] at htexts
  refine noReturn_joinLines ?_
  simp only [List.forall_mem_cons, NoReturn.append_iff, hsource, htarget, hgenerics, houter, hinner,
    htrait, hindent, htexts, and_self, true_and]
  simp

/-- **The generated text has no carriage return**, whatever the header says. -/
theorem noReturn_render {edges : List Synthesized} (htrait : NoReturn style.traitPath)
    (hindent : NoReturn style.indent) (hprelude : ∀ l ∈ style.prelude, NoReturn l)
    (hedges : ∀ e ∈ edges, NoReturns e) :
    NoReturn (render ⟨edges.map (write style), style.prelude, style.header⟩) := by
  have hopening : ∀ l ∈ headerLines style.header ++ style.prelude, NoReturn l := by
    intro l hl
    exact (List.mem_append.mp hl).elim (noReturn_headerLines style.header l) (hprelude l)
  have hconversions : ∀ l ∈ (edges.map (write style)).map (·.text), NoReturn l := by
    intro l hl
    rw [List.map_map] at hl
    obtain ⟨e, he, rfl⟩ := List.mem_map.mp hl
    exact noReturn_conversionText htrait hindent (hedges e he)
  have hchunks : ∀ l ∈ (if (headerLines style.header ++ style.prelude).isEmpty then []
      else [joinLines (headerLines style.header ++ style.prelude)]) ++
        (edges.map (write style)).map (·.text), NoReturn l := by
    intro l hl
    rcases List.mem_append.mp hl with hl | hl
    · split at hl
      · cases hl
      · exact List.mem_singleton.mp hl ▸ noReturn_joinLines hopening
    · exact hconversions l hl
  unfold render
  extract_lets opening chunks
  by_cases hnone : chunks.isEmpty = true
  · rw [if_pos hnone]
    exact Reference.noReturn_empty
  · rw [if_neg hnone]
    exact (noReturn_joinLines hchunks).append (by decide)

end Emission

/-! ### A pass over source files -/

namespace SourceUnit

variable {ls : Languages} {fs : FileSystem} {name : Option String} {path : Path}
  {paths : List Path} {scope : Scope} {b b' : Budget} {unit : SourceUnit} {units : List SourceUnit}

/-- No type of a conversion has a carriage return in its text. -/
def NoReturns (unit : SourceUnit) : Prop :=
  ∀ d ∈ unit.conversions, d.source.NoReturns ∧ d.target.NoReturns

theorem noReturns_of_loadAs
    (h : (loadAs .source fs path).runWith scope b = (.ok unit, b')) : unit.NoReturns := by
  unfold loadAs at h
  obtain ⟨_, b₁, -, h⟩ := Metered.exists_of_runWith_bind h
  split at h
  · cases h
  split at h
  · cases h
  · rename_i text hread
    have htext := Utf8.noReturn_of_readText hread
    cases hparse : Format.parseSource path text with
    | error fault =>
        simp only [Format.parse, hparse] at h
        cases h
    | ok unit' =>
        simp only [Format.parse, hparse] at h
        cases h
        exact Format.has_of_parseSource Reference.inherits_noReturn
          (fun ts hts => NoReturn.of_lex htext (lex_of_tokenize hts).1) hparse

theorem noReturns_of_load (hsource : ls.resolve path name Languages.defaultName = .ok .source)
    (h : (load ls fs name path).runWith scope b = (.ok unit, b')) : unit.NoReturns := by
  unfold load at h
  split at h
  · rw [hsource] at h
    exact noReturns_of_loadAs h
  · cases h

/-- What is loaded from source files has no carriage return in its types. -/
theorem noReturns_of_loadAll
    (hsource : ∀ p ∈ paths, ls.resolve p name Languages.defaultName = .ok .source)
    (h : (loadAll ls fs name paths).runWith scope b = (.ok units, b')) :
    ∀ unit ∈ units, unit.NoReturns := by
  unfold loadAll at h
  induction paths generalizing units b with
  | nil =>
      cases h
      simp
  | cons path paths ih =>
      rw [List.mapM_cons] at h
      obtain ⟨unit, b₁, hunit, h⟩ := Metered.exists_of_runWith_bind h
      obtain ⟨rest, b₂, hrest, h⟩ := Metered.exists_of_runWith_bind h
      cases h
      exact List.forall_mem_cons.mpr ⟨noReturns_of_load (hsource path (by simp)) hunit,
        ih (fun p hp => hsource p (by simp [hp])) hrest⟩

end SourceUnit

namespace Registry

variable {name : String} {units : List SourceUnit}

theorem noReturns_of_isEnd (hunits : ∀ unit ∈ units, unit.NoReturns) {r : Reference}
    (hr : IsEnd name units r) : r.NoReturns := by
  obtain ⟨p, hp, hends⟩ := hr
  obtain ⟨unit, hunit, d, hd, haccepted⟩ := mem_acceptedPairs.mp hp
  obtain ⟨hsource, htarget⟩ := hunits unit hunit d hd
  have hpair := ConversionDecl.eq_of_accepted? haccepted
  rcases hends with rfl | rfl
  · exact hpair ▸ hsource.replaceSelf htarget
  · exact hpair ▸ htarget

end Registry

namespace Pass

variable {settings : Settings} {ls : Languages} {fs : FileSystem} {name : Option String}
  {paths : List Path} {units : List SourceUnit} {report : Report} {passed : Budget}

theorem noReturn_of_runMetered (htrait : NoReturn settings.traitPath)
    (hprelude : ∀ l ∈ settings.prelude, NoReturn l) (hread : ∀ unit ∈ units, unit.IsRead)
    (hunits : ∀ unit ∈ units, unit.NoReturns)
    (h : runMetered settings units = .ok (.ok report, passed)) : NoReturn report.output := by
  obtain ⟨d, g, closing, c, hg, hsettled, -, hstages⟩ := exists_written settings hread
  obtain ⟨-, -, hrun⟩ := withBudget_eq_ok_iff.mp h
  obtain rfl := Except.ok.inj ((hstages _).eq_of_runWith hrun)
  have href : ∀ r ∈ g.references, r.NoReturns := fun r hr =>
    Registry.noReturns_of_isEnd hunits (Registry.isEnd_of_mem_references hg hr)
  refine Emission.noReturn_render htrait (show NoReturn "    " by decide) hprelude fun e he => ?_
  obtain ⟨hsource, htarget, hvia⟩ := hsettled.mem_references he
  exact ⟨href _ hsource, href _ htarget, href _ hvia⟩

/-- **A pass over source files generates no carriage return**, unless the trait path or the prelude
has one. -/
theorem noReturn_of_runPaths (htrait : NoReturn settings.traitPath)
    (hprelude : ∀ l ∈ settings.prelude, NoReturn l)
    (hsource : ∀ p ∈ paths, ls.resolve p name Languages.defaultName = .ok .source)
    (h : runPaths settings ls fs name paths = .ok report) : NoReturn report.output := by
  obtain ⟨units, loaded, passed, hload, hpass⟩ := runPaths_eq_ok_iff.mp h
  have hrun := (withBudget_eq_ok_iff.mp hload).2.2
  exact noReturn_of_runMetered htrait hprelude (SourceUnit.isRead_of_loadAll hrun)
    (SourceUnit.noReturns_of_loadAll hsource hrun) hpass

end Pass

end ConversionClosure
