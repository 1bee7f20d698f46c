/-
The tokens of an emitted file.

A file is made of whole lines: comments for the header, the prelude, and seven lines for each
implementation.  `LexesLines` says what the lexer makes of such lines, whatever lines follow.
Comments leave no token, and a header is written in comments whatever it says, since none of its
lines holds a line feed.  The lines of an implementation have the tokens of their references as
long as these are legible.
-/
import ConversionClosure.Emission
import ConversionClosure.Proofs.Metering
import ConversionClosure.Proofs.Soundness

namespace ConversionClosure

open Text Piece Token Reference

variable {line line' : Nat} {cs ds rest : List Char} {ts us : List Token}

/-! ### Whole lines -/

/-- The lexer makes the tokens `ts` of the text `cs`, which starts on the line `line`, and goes on
behind it on the line `line'`. -/
def LexesLines (line : Nat) (cs : List Char) (ts : List Token) (line' : Nat) : Prop :=
  ∀ rest, lexFrom line (cs ++ rest) = (lexFrom line' rest).map (ts ++ ·)

/-- A text as a line. -/
def endLine (text : String) : List Char := text.toList ++ ['\n']

namespace LexesLines

theorem nil : LexesLines line [] [] line := fun _ => Lexes.nil

theorem append {mid : Nat} (h : LexesLines line cs ts mid) (h' : LexesLines mid ds us line') :
    LexesLines line (cs ++ ds) (ts ++ us) line' :=
  fun rest => LexesTo.append (h _) (h' rest)

/-- The end of a line leaves no token. -/
theorem lineEnd : LexesLines line ['\n'] [] (line + 1) := by
  intro rest
  have hnext : next '\n' rest = .ok ([filler .blank ['\n']], rest) := next_blank (by decide)
  exact lexFrom_of_next hnext line

/-- A line of tokens. -/
theorem of_lexes {text : String} (h : ∀ rest, Lexes line text.toList ts ('\n' :: rest)) :
    LexesLines line (endLine text) ts (line + 1) := by
  intro rest
  have hline : LexesTo line (text.toList ++ ['\n']) (ts ++ []) (line + 1) rest :=
    (h rest).lexesTo.append (lineEnd rest)
  rwa [List.append_nil] at hline

/-- A comment up to the end of its line leaves no token. -/
theorem comment {text : String} (htext : text.toList = '/' :: '/' :: cs) (hcs : '\n' ∉ cs) :
    LexesLines line (endLine text) [] (line + 1) := by
  refine of_lexes fun rest => ?_
  have hall : ∀ c ∈ '/' :: cs, (c != '\n') = true := by
    intro c hc
    rw [bne_iff_ne]
    rintro rfl
    exact hcs (by simpa using hc)
  have htake : ('/' :: cs ++ '\n' :: rest).takeWhile (· != '\n') = '/' :: cs := by
    rw [List.takeWhile_append_of_pos hall]
    simp
  have hdrop : ('/' :: cs ++ '\n' :: rest).dropWhile (· != '\n') = '\n' :: rest := by
    rw [List.dropWhile_append_of_pos hall]
    simp
  have hnext : next '/' ('/' :: cs ++ '\n' :: rest) =
      .ok ([filler .lineComment ('/' :: '/' :: cs)], '\n' :: rest) := by
    have hblank : isBlank '/' = false := by decide
    unfold next
    rw [htake, hdrop]
    simp [hblank]
  have hbreaks : breaksAll [filler .lineComment ('/' :: '/' :: cs)] = 0 := by
    rw [breaksAll, cover_cons, cover_nil, List.append_nil]
    exact List.count_eq_zero.mpr (by simpa using hcs)
  rw [htext]
  exact Lexes.of_next hnext hbreaks

end LexesLines

namespace Emission

/-! ### The lines of a file -/

/-- Lines with line ends between them and behind the last one. -/
def endLines (lines : List String) : List Char := lines.flatMap endLine

theorem endLines_append (lines more : List String) :
    endLines (lines ++ more) = endLines lines ++ endLines more := List.flatMap_append

theorem endLine_joinLines {lines : List String} (h : lines ≠ []) :
    endLine (joinLines lines) = endLines lines := by
  induction lines with
  | nil => exact absurd rfl h
  | cons l lines ih =>
      cases lines with
      | nil => simp [joinLines, endLines]
      | cons l' lines =>
          rw [endLines, List.flatMap_cons, ← endLines, ← ih (by simp)]
          simp [joinLines, endLine, String.toList_intercalate]

/-- The lines of an implementation up to the last one. -/
def openLines (style : EmissionStyle) (e : Synthesized) : List String :=
  let trait := style.traitPath
  let source := e.source.render
  let target := e.target.render
  let one := style.indent
  [ "impl" ++ generics e.source.declaredLifetimes ++ " " ++ trait ++ "<" ++ source ++ "> for " ++
      target ++ " \x7b",
    one ++ "fn from(value: " ++ source ++ ") -> Self \x7b",
    one ++ one ++ callText style e.via e.target,
    one ++ one ++ one ++ callText style e.source e.via ++ "value),",
    one ++ one ++ ")",
    one ++ "\x7d"]

/-- The lines of an implementation. -/
def conversionLines (style : EmissionStyle) (e : Synthesized) : List String :=
  openLines style e ++ ["\x7d"]

theorem conversionText_eq (style : EmissionStyle) (e : Synthesized) :
    conversionText style e = joinLines (conversionLines style e) := rfl

theorem endLine_conversionText (style : EmissionStyle) (e : Synthesized) :
    endLine (conversionText style e) = endLines (conversionLines style e) := by
  rw [conversionText_eq]
  exact endLine_joinLines (List.cons_ne_nil _ _)

/-- The text of an implementation ends with its closing brace. -/
theorem toList_conversionText (style : EmissionStyle) (e : Synthesized) :
    (conversionText style e).toList = endLines (openLines style e) ++ "\x7d".toList := by
  have hlast : endLines ["\x7d"] = "\x7d".toList ++ ['\n'] := by decide
  have hlines : endLine (conversionText style e) =
      (endLines (openLines style e) ++ "\x7d".toList) ++ ['\n'] := by
    rw [endLine_conversionText, conversionLines, endLines_append, hlast, List.append_assoc]
  exact List.append_cancel_right hlines

/-- Every line of a file has an end: those of the header, those of the prelude, and those of the
implementations. -/
theorem toList_render (style : EmissionStyle) (edges : List Synthesized) :
    (render ⟨edges.map (write style), style.prelude, style.header⟩).toList =
      endLines (headerLines style.header ++ style.prelude) ++
        edges.flatMap fun e => endLines (conversionLines style e) := by
  have hconversions : endLines (edges.map (conversionText style)) =
      edges.flatMap fun e => endLines (conversionLines style e) := by
    rw [endLines, List.flatMap_map]
    simp only [endLine_conversionText]
  have htexts : (edges.map (write style)).map (·.text) = edges.map (conversionText style) := by
    rw [List.map_map]
    rfl
  have hopening : ∀ opening : List String,
      endLines (if opening.isEmpty then [] else [joinLines opening]) = endLines opening := by
    intro opening
    cases opening with
    | nil => rfl
    | cons l opening =>
        rw [← endLine_joinLines (List.cons_ne_nil l opening)]
        exact List.append_nil _
  unfold render
  simp only [htexts]
  rw [← hconversions, ← hopening, ← endLines_append]
  generalize (if (headerLines style.header ++ style.prelude).isEmpty then []
    else [joinLines (headerLines style.header ++ style.prelude)]) ++
      edges.map (conversionText style) = chunks
  cases chunks with
  | nil => rfl
  | cons chunk chunks =>
      rw [← endLine_joinLines (List.cons_ne_nil chunk chunks), List.isEmpty_cons,
        if_neg Bool.false_ne_true, String.toList_append]
      rfl

/-! ### The header -/

/-- No line of a text holds a character that ends a line on its own. -/
theorem not_mem_linesFrom {b : Char} (hb : isLineBreak b = true) {begun : List Char}
    (hbegun : b ∉ begun) (cs : List Char) : ∀ l ∈ linesFrom begun cs, b ∉ l := by
  fun_induction linesFrom begun cs with
  | case1 => simp
  | case2 => simpa using hbegun
  | case3 begun cs ih => simpa using ⟨hbegun, ih (by simp)⟩
  | case4 begun c cs _ hbreak ih => simpa using ⟨hbegun, ih (by simp)⟩
  | case5 begun c cs _ hbreak ih =>
      refine ih ?_
      simp only [List.mem_append, List.mem_singleton, not_or]
      refine ⟨hbegun, ?_⟩
      rintro rfl
      exact hbreak hb

theorem not_mem_lines {b : Char} (hb : isLineBreak b = true) (text : String) :
    ∀ l ∈ lines text, b ∉ l.toList := by
  intro l hl
  obtain ⟨cs, hcs, rfl⟩ := List.mem_map.mp hl
  rw [String.toList_ofList]
  exact not_mem_linesFrom hb (by simp) _ cs hcs

theorem trimEndChars_cons {c : Char} (h : isBlank c = false) (cs : List Char) :
    trimEndChars (c :: cs) = c :: trimEndChars cs := by
  rw [trimEndChars, List.reverse_cons, List.dropWhile_append]
  by_cases hempty : (cs.reverse.dropWhile isBlank).isEmpty = true
  · have hnil := List.isEmpty_iff.mp hempty
    rw [if_pos hempty, trimEndChars, hnil]
    simp [h]
  · rw [if_neg hempty, trimEndChars, List.reverse_append]
    rfl

theorem mem_of_mem_trimEndChars {c : Char} {cs : List Char} (h : c ∈ trimEndChars cs) : c ∈ cs := by
  rw [trimEndChars, List.mem_reverse] at h
  exact List.mem_reverse.mp ((List.dropWhile_sublist isBlank).subset h)

/-- A line of the header is a comment as far as its end. -/
theorem exists_headerLine {text : String} (h : '\n' ∉ text.toList) :
    ∃ cs, (trimEnd ("// " ++ text)).toList = '/' :: '/' :: cs ∧ '\n' ∉ cs := by
  refine ⟨trimEndChars (' ' :: text.toList), ?_, ?_⟩
  · have hslash : isBlank '/' = false := by decide
    rw [trimEnd, String.toList_ofList, String.toList_append, ← trimEndChars_cons hslash,
      ← trimEndChars_cons hslash]
    rfl
  · intro hmem
    have hline := mem_of_mem_trimEndChars hmem
    simp only [List.mem_cons, Char.reduceEq, false_or] at hline
    exact h hline

/-- A header leaves no token, whatever it says. -/
theorem lexes_headerLines (header : String) :
    ∃ line', LexesLines line (endLines (headerLines header)) [] line' := by
  have hlines : ∀ l ∈ lines header, '\n' ∉ l.toList := not_mem_lines (by decide) header
  unfold headerLines
  generalize lines header = texts at hlines
  induction texts generalizing line with
  | nil => exact ⟨line, .nil⟩
  | cons l texts ih =>
      obtain ⟨cs, htext, hcs⟩ := exists_headerLine (hlines l (by simp))
      obtain ⟨line', hmore⟩ := @ih (line + 1) fun l hl => hlines l (by simp [hl])
      exact ⟨line', (LexesLines.comment htext hcs).append hmore⟩

/-! ### The plan -/

/-- The types of a conversion are sound. -/
structure IsSound (e : Synthesized) : Prop where
  source : e.source.Sound true
  target : e.target.Sound true
  via : e.via.Sound true

theorem IsSound.isWritable {e : Synthesized} (h : IsSound e) : isWritable e = true := by
  rw [Emission.isWritable, h.source.hasText, h.target.hasText, h.via.hasText,
    h.source.settlesLifetimes]
  rfl

theorem does_plan {style : EmissionStyle} {edges : List Synthesized}
    (h : ∀ e ∈ edges, isWritable e = true) :
    (plan style edges).Does (List.replicate edges.length .planEmission)
      (.ok ⟨edges.map (write style), style.prelude, style.header⟩) := by
  have hone : ∀ e ∈ edges, (do
      Metered.tick .planEmission
      answerIf (isWritable e) (write style e) : Metered WrittenConversion).Does [.planEmission]
        (.ok (write style e)) := by
    intro e he
    rw [h e he]
    exact (Metered.Does.tick .planEmission).bind (Metered.Does.pure (write style e))
  rw [← List.append_nil (List.replicate edges.length _)]
  exact (Metered.Does.mapM hone).bind (Metered.Does.pure _)

/-! ### One implementation -/

/-- The trait of a conversion from `source`, as a path below the root. -/
def fromTrait (source : Reference) : Reference :=
  { segments := ["std", "convert", "From"], args := [source] }

/-- The lifetimes declared after the keyword. -/
def parameterTokens (line : Nat) (lifetimes : List String) : List Token :=
  argumentTokens line (lifetimes.map (Token.ofText line))

/-- The call of the conversion from `source` to `target`, up to its argument. -/
def callTokens (line : Nat) (source target : Reference) : List Token :=
  mark line "<" :: (target.tokens line ++ name line "as" :: mark line "::" ::
    ((fromTrait source).tokens line ++ [mark line ">", mark line "::", name line "from"]))

/-- The method of an implementation, which starts on the line `line`. -/
def bodyTokens (line : Nat) (e : Synthesized) : List Token :=
  name line "fn" :: name line "from" :: (mark line "(" ::
      (name line "value" :: mark line ":" :: e.source.tokens line) ++ mark line ")" ::
    mark line "->" :: name line "Self" :: (mark line "\x7b" ::
      (callTokens (line + 1) e.via e.target ++ (mark (line + 1) "(" ::
        (callTokens (line + 2) e.source e.via ++ (mark (line + 2) "(" ::
          [name (line + 2) "value"] ++ [mark (line + 2) ")", mark (line + 2) ","])) ++
        [mark (line + 3) ")"])) ++
      [mark (line + 4) "\x7d"]))

/-- The tokens of an implementation, which starts on the line `line`. -/
def conversionTokens (line : Nat) (e : Synthesized) : List Token :=
  implTokens line (line + 6) (parameterTokens line e.source.declaredLifetimes)
    (fromTrait e.source) e.target (bodyTokens (line + 1) e)

theorem render_fromTrait (source : Reference) :
    (fromTrait source).render = "std::convert::From<" ++ source.render ++ ">" := by
  have hpath : "::".intercalate ["std", "convert", "From"] = "std::convert::From" := by decide
  have hargs : commaSeparated [source.render] = source.render := by
    rw [← String.toList_inj, commaSeparated, String.toList_intercalate]
    simp
  rw [fromTrait, Reference.render, hpath]
  simp only [renderAll_eq_map, List.map_cons, List.map_nil, List.isEmpty_cons, Bool.false_eq_true,
    if_false, hargs]
  rw [← String.append_assoc, ← String.append_assoc]
  rfl

theorem legible_fromTrait {source : Reference} (h : source.Legible) :
    (fromTrait source).Legible := by
  refine .path ?_ (by simpa using h)
  intro s hs
  refine standsAlone_identifier ?_
  revert s
  decide

theorem lexes_generics {lifetimes : List String} (h : ∀ l ∈ lifetimes, StandsAlone l) :
    Lexes line (generics lifetimes).toList (parameterTokens line lifetimes) rest := by
  cases lifetimes with
  | nil => exact Lexes.nil
  | cons l lifetimes =>
      have hall : Lexes line (", ".intercalate ((l :: lifetimes).map id)).toList
          (commaTokens line ((l :: lifetimes).map (Token.ofText line))) (">".toList ++ rest) :=
        Lexes.intercalate (fun _ => Lexes.comma) (fun _ => separates_cons.mpr (by decide))
          (fun s hs => h s hs line) (separates_cons.mpr (by decide))
      rw [List.map_id] at hall
      simp only [generics, parameterTokens, argumentTokens, List.map_cons, List.isEmpty_cons,
        Bool.false_eq_true, if_false, String.toList_append]
      exact Lexes.between (by decide) (by decide) hall

theorem separates_generics {lifetimes : List String} (hrest : Separates rest) :
    Separates ((generics lifetimes).toList ++ rest) := by
  cases lifetimes with
  | nil => exact hrest
  | cons l lifetimes =>
      simp only [generics, List.isEmpty_cons, Bool.false_eq_true, if_false, String.toList_append,
        List.append_assoc]
      exact separates_cons.mpr (by decide)

theorem lexes_call {source target : Reference} (hsource : source.Legible)
    (htarget : target.Legible) {style : EmissionStyle}
    (htrait : style.traitPath = "::std::convert::From") (hmore : Lexes line ds us rest) :
    Lexes line ((callText style source target).toList ++ ds)
      (callTokens line source target ++ mark line "(" :: us) rest := by
  have htext : (callText style source target).toList ++ ds =
      "<".toList ++ (target.render.toList ++ ' ' :: ("as".toList ++ ' ' :: ("::".toList ++
        ((fromTrait source).render.toList ++ (">".toList ++ ("::".toList ++
          ("from".toList ++ ("(".toList ++ ds)))))))) := by
    simp [callText, htrait, render_fromTrait]
  have htokens : callTokens line source target ++ mark line "(" :: us =
      mark line "<" :: (target.tokens line ++ name line "as" :: mark line "::" ::
        ((fromTrait source).tokens line ++ mark line ">" :: mark line "::" :: name line "from" ::
          mark line "(" :: us)) := by
    simp [callTokens]
  rw [htext, htokens]
  have hsep : ∀ cs, Separates (' ' :: cs) := fun _ => separates_cons.mpr (by decide)
  refine Lexes.punct_append (by decide) (Lexes.render_append htarget (hsep _) ?_)
  refine Lexes.blank_append (Lexes.identifier_append (by decide) (hsep _) ?_)
  refine Lexes.blank_append (Lexes.punct_append (by decide) ?_)
  refine Lexes.render_append (legible_fromTrait hsource) (separates_cons.mpr (by decide)) ?_
  refine Lexes.punct_append (by decide) (Lexes.punct_append (by decide) ?_)
  refine Lexes.identifier_append (by decide) (separates_cons.mpr (by decide)) ?_
  exact Lexes.punct_append (by decide) hmore

/-- The style of a file with the usual trait and indentation. -/
structure IsUsual (style : EmissionStyle) : Prop where
  traitPath_eq : style.traitPath = "::std::convert::From"
  indent_eq : style.indent = "    "

/-- The references of a conversion are legible, and so are the lifetimes that it declares. -/
structure IsLegible (e : Synthesized) : Prop where
  source : e.source.Legible
  target : e.target.Legible
  via : e.via.Legible
  lifetimes : ∀ l ∈ e.source.declaredLifetimes, StandsAlone l

variable {style : EmissionStyle} {e : Synthesized}

theorem lexes_head (hstyle : IsUsual style) (he : IsLegible e) :
    Lexes line ("impl" ++ generics e.source.declaredLifetimes ++ " " ++ style.traitPath ++ "<" ++
        e.source.render ++ "> for " ++ e.target.render ++ " \x7b").toList
      (name line "impl" :: (parameterTokens line e.source.declaredLifetimes ++ mark line "::" ::
        ((fromTrait e.source).tokens line ++ name line "for" :: (e.target.tokens line ++
          [mark line "\x7b"])))) rest := by
  have htext : ("impl" ++ generics e.source.declaredLifetimes ++ " " ++ style.traitPath ++ "<" ++
      e.source.render ++ "> for " ++ e.target.render ++ " \x7b").toList =
      "impl".toList ++ ((generics e.source.declaredLifetimes).toList ++ ' ' :: ("::".toList ++
        ((fromTrait e.source).render.toList ++ ' ' :: ("for".toList ++ ' ' ::
          (e.target.render.toList ++ ' ' :: "\x7b".toList))))) := by
    simp [hstyle.traitPath_eq, render_fromTrait]
  have hsep : ∀ cs, Separates (' ' :: cs) := fun _ => separates_cons.mpr (by decide)
  rw [htext]
  refine Lexes.identifier_append (by decide) ?_ (Lexes.append (lexes_generics he.lifetimes) ?_)
  · rw [List.append_assoc]
    exact separates_generics (hsep _)
  refine Lexes.blank_append (Lexes.punct_append (by decide) ?_)
  refine Lexes.render_append (legible_fromTrait he.source) (hsep _) ?_
  refine Lexes.blank_append (Lexes.identifier_append (by decide) (hsep _) ?_)
  refine Lexes.blank_append (Lexes.render_append he.target (hsep _) ?_)
  exact Lexes.blank_append (Lexes.punct (by decide))

theorem lexes_indent (hstyle : IsUsual style) (hmore : Lexes line ds us rest) :
    Lexes line (style.indent.toList ++ ds) us rest := by
  rw [hstyle.indent_eq]
  exact Lexes.blank_append (Lexes.blank_append (Lexes.blank_append (Lexes.blank_append hmore)))

theorem lexes_signature (hstyle : IsUsual style) (he : IsLegible e) :
    Lexes line (style.indent ++ "fn from(value: " ++ e.source.render ++ ") -> Self \x7b").toList
      (name line "fn" :: name line "from" :: mark line "(" :: name line "value" :: mark line ":" ::
        (e.source.tokens line ++ [mark line ")", mark line "->", name line "Self",
          mark line "\x7b"])) rest := by
  have htext : (style.indent ++ "fn from(value: " ++ e.source.render ++ ") -> Self \x7b").toList =
      style.indent.toList ++ ("fn".toList ++ ' ' :: ("from".toList ++ ("(".toList ++
        ("value".toList ++ ':' :: ' ' :: (e.source.render.toList ++ (")".toList ++ ' ' ::
          ("->".toList ++ ' ' :: ("Self".toList ++ ' ' :: "\x7b".toList)))))))) := by
    simp
  have hsep : ∀ cs, Separates (' ' :: cs) := fun _ => separates_cons.mpr (by decide)
  rw [htext]
  refine lexes_indent hstyle (Lexes.identifier_append (by decide) (hsep _) ?_)
  refine Lexes.blank_append ?_
  refine Lexes.identifier_append (by decide) (separates_cons.mpr (by decide)) ?_
  refine Lexes.punct_append (by decide) ?_
  refine Lexes.identifier_append (by decide) (separates_cons.mpr (by decide)) ?_
  refine Lexes.colon_append (Lexes.render_append he.source (separates_cons.mpr (by decide)) ?_)
  refine Lexes.punct_append (by decide) (Lexes.blank_append (Lexes.punct_append (by decide) ?_))
  refine Lexes.blank_append (Lexes.identifier_append (by decide) (hsep _) ?_)
  exact Lexes.blank_append (Lexes.punct (by decide))

theorem lexes_outerCall (hstyle : IsUsual style) (he : IsLegible e) :
    Lexes line (style.indent ++ style.indent ++ callText style e.via e.target).toList
      (callTokens line e.via e.target ++ [mark line "("]) rest := by
  simp only [String.toList_append, List.append_assoc]
  have hcall : Lexes line ((callText style e.via e.target).toList ++ [])
      (callTokens line e.via e.target ++ [mark line "("]) rest :=
    lexes_call he.via he.target hstyle.traitPath_eq Lexes.nil
  rw [List.append_nil] at hcall
  exact lexes_indent hstyle (lexes_indent hstyle hcall)

theorem lexes_innerCall (hstyle : IsUsual style) (he : IsLegible e) :
    Lexes line (style.indent ++ style.indent ++ style.indent ++ callText style e.source e.via ++
        "value),").toList
      (callTokens line e.source e.via ++ mark line "(" :: [name line "value", mark line ")",
        mark line ","]) rest := by
  simp only [String.toList_append, List.append_assoc]
  have hargument : Lexes line ("value".toList ++ (")".toList ++ ",".toList))
      [name line "value", mark line ")", mark line ","] rest :=
    Lexes.identifier_append (by decide) (separates_cons.mpr (by decide))
      (Lexes.punct_append (by decide) (Lexes.punct (by decide)))
  have hcall := lexes_call he.source he.via hstyle.traitPath_eq hargument
  exact lexes_indent hstyle (lexes_indent hstyle (lexes_indent hstyle hcall))

/-- The tokens of an implementation up to its closing brace. -/
def openTokens (line : Nat) (e : Synthesized) : List Token :=
  name line "impl" :: (parameterTokens line e.source.declaredLifetimes ++ mark line "::" ::
    ((fromTrait e.source).tokens line ++ name line "for" :: (e.target.tokens line ++
      mark line "\x7b" :: bodyTokens (line + 1) e)))

theorem conversionTokens_eq (line : Nat) (e : Synthesized) :
    conversionTokens line e = openTokens line e ++ [mark (line + 6) "\x7d"] := by
  simp [conversionTokens, implTokens, openTokens]

/-- The lexer makes the tokens of an implementation of its lines, up to the last one. -/
theorem lexes_open (hstyle : IsUsual style) (he : IsLegible e) :
    LexesLines line (endLines (openLines style e)) (openTokens line e) (line + 6) := by
  have hround : ∀ rest, Lexes (line + 4) (style.indent ++ style.indent ++ ")").toList
      [mark (line + 4) ")"] rest := by
    intro rest
    simp only [String.toList_append, List.append_assoc]
    exact lexes_indent hstyle (lexes_indent hstyle (Lexes.punct (by decide)))
  have hcurly : ∀ rest, Lexes (line + 5) (style.indent ++ "\x7d").toList
      [mark (line + 5) "\x7d"] rest := by
    intro rest
    rw [String.toList_append]
    exact lexes_indent hstyle (Lexes.punct (by decide))
  have hlines := (LexesLines.of_lexes fun _ => lexes_head hstyle he).append <|
    (LexesLines.of_lexes fun _ => lexes_signature hstyle he).append <|
    (LexesLines.of_lexes fun _ => lexes_outerCall hstyle he).append <|
    (LexesLines.of_lexes fun _ => lexes_innerCall hstyle he).append <|
    (LexesLines.of_lexes fun _ => hround _).append <|
    LexesLines.of_lexes fun _ => hcurly _
  unfold openTokens bodyTokens endLines openLines
  simp only [List.append_assoc, List.cons_append, List.nil_append, List.flatMap_cons,
    List.flatMap_nil, List.append_nil] at hlines ⊢
  exact hlines

/-- The lexer makes the tokens of an implementation of its lines. -/
theorem lexes_conversion (hstyle : IsUsual style) (he : IsLegible e) :
    LexesLines line (endLines (conversionLines style e)) (conversionTokens line e) (line + 7) := by
  have hlast : LexesLines (line + 6) (endLine "\x7d") [mark (line + 6) "\x7d"] (line + 7) :=
    LexesLines.of_lexes fun _ => Lexes.punct (by decide)
  rw [conversionTokens_eq, conversionLines, endLines_append]
  exact (lexes_open hstyle he).append hlast

/-- The lexer makes the same tokens of the text of an implementation, which has no line end behind
it. -/
theorem lex_conversionText (hstyle : IsUsual style) (he : IsLegible e) :
    lex (conversionText style e) = .ok (conversionTokens 1 e) := by
  have hlast : lexFrom 7 "\x7d".toList = .ok [mark 7 "\x7d"] := by
    have hlexes : Lexes 7 "\x7d".toList [mark 7 "\x7d"] [] := Lexes.punct (by decide)
    unfold Lexes at hlexes
    rw [List.append_nil, lexFrom_nil] at hlexes
    exact hlexes
  refine lex_of_lexFrom ?_ ?_
  · rw [toList_conversionText, lexes_open hstyle he, hlast, conversionTokens_eq]
    rfl
  · intro t ht
    obtain rfl : name 1 "impl" = t := by simpa [conversionTokens, implTokens] using ht
    rfl

end Emission

end ConversionClosure
