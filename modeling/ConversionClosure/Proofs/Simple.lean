/-
References whose arrays may have any one token as their length.

A simple reference is built as a plain one is, but the length of an array is only told to be one
token, and that may be a literal that ends lines.  So the tokens of its text are not the tokens of
one line, and they are not computed from the reference: the lexer finds some that spell it.
-/
import ConversionClosure.Proofs.OneToken
import ConversionClosure.Proofs.Reading

namespace ConversionClosure

open Text Piece Token

namespace Reference

variable {r inner : Reference} {args : List Reference}

/-- The reference is made of paths of names, references, pointers, tuples, slices, and arrays whose
length is one token, and no node has a part that its form has no use for. -/
inductive Simple : Reference → Prop
  | path {first : String} {more : List String} {args : List Reference}
      (hsegments : ∀ s ∈ first :: more, isIdentifier s = true) (hstart : first ∉ reservedStarts)
      (hargs : ∀ a ∈ args, Simple a) :
      Simple { segments := first :: more, args }
  | ampersand (exclusive : Bool) {lifetime : String} {inner : Reference}
      (hlifetime : lifetime = "" ∨ isLifetime lifetime = true) (hinner : Simple inner) :
      Simple { modifier := ampersand exclusive, args := [inner], lifetime }
  | star (exclusive : Bool) {inner : Reference} (hinner : Simple inner) :
      Simple { modifier := star exclusive, args := [inner] }
  | tuple {args : List Reference} (hargs : ∀ a ∈ args, Simple a) :
      Simple { modifier := .tuple, args }
  | slice {inner : Reference} (hinner : Simple inner) :
      Simple { modifier := .slice, args := [inner] }
  | array {inner : Reference} {length : String} (hlength : OneToken length)
      (hinner : Simple inner) : Simple { modifier := .array, args := [inner], length }

/-! ### The texts of forms around other references -/

section Forms

variable {line line' mid : Nat} {rest : List Char} {ts us : List Token}

theorem lexesTo_ampersand {lifetime : String} (exclusive : Bool)
    (hlifetime : lifetime = "" ∨ isLifetime lifetime = true)
    (h : LexesTo line inner.render.toList ts line' rest) :
    LexesTo line
      (render { modifier := ampersand exclusive, args := [inner], lifetime }).toList
      (mark line "&" :: (lifetimeTokens line lifetime ++
        if exclusive then name line "mut" :: ts else ts)) line' rest := by
  have hfront : ∀ rest, LexesTo line ("&".toList ++ (lifetimeText lifetime).toList)
      (mark line "&" :: lifetimeTokens line lifetime) line rest := fun _ =>
    (Lexes.append (Lexes.punct (by decide)) (Lexes.lifetimeText hlifetime)).lexesTo
  cases exclusive with
  | false =>
      have hrender : (render { modifier := .shared, args := [inner], lifetime }).toList =
          "&".toList ++ (lifetimeText lifetime).toList ++ inner.render.toList := by simp [render]
      rw [ampersand, if_neg Bool.false_ne_true, hrender]
      exact (hfront _).append h
  | true =>
      have hrender : (render { modifier := .exclusive, args := [inner], lifetime }).toList =
          "&".toList ++ (lifetimeText lifetime).toList ++
            ("mut".toList ++ [' '] ++ inner.render.toList) := by simp [render]
      have hword : LexesTo line ("mut".toList ++ [' ']) [name line "mut"] line
          (inner.render.toList ++ rest) := (Lexes.word (by decide)).lexesTo
      rw [ampersand, if_pos rfl, hrender]
      exact (hfront _).append (hword.append h)

theorem lexesTo_star (exclusive : Bool) (h : LexesTo line inner.render.toList ts line' rest) :
    LexesTo line (render { modifier := star exclusive, args := [inner] }).toList
      (mark line "*" :: name line (starWord exclusive) :: ts) line' rest := by
  have hrender : (render { modifier := star exclusive, args := [inner] }).toList =
      "*".toList ++ ((starWord exclusive).toList ++ [' '] ++ inner.render.toList) := by
    cases exclusive with
    | false => simp [star, starWord, render]
    | true => simp [star, starWord, render]
  have hname : isIdentifier (starWord exclusive) = true := by
    cases exclusive with
    | false => decide
    | true => decide
  have hword : LexesTo line ((starWord exclusive).toList ++ [' ']) [name line (starWord exclusive)]
      line (inner.render.toList ++ rest) := (Lexes.word hname).lexesTo
  rw [hrender]
  exact (Lexes.punct (by decide)).lexesTo.append (hword.append h)

theorem lexesTo_tuple (hone : args.length ≠ 1)
    (h : LexesTo line (commaSeparated (args.map render)).toList ts line' (")".toList ++ rest)) :
    LexesTo line (render { modifier := .tuple, args }).toList
      (mark line "(" :: (ts ++ [mark line' ")"])) line' rest := by
  have hrender : (render { modifier := .tuple, args }).toList =
      "(".toList ++ (commaSeparated (args.map render)).toList ++ ")".toList := by
    simp [render, hone]
  rw [hrender]
  exact LexesTo.between (by decide) (by decide) h

/-- A tuple of one has a comma behind its element. -/
theorem lexesTo_tuple_one
    (h : LexesTo line inner.render.toList ts line' (",".toList ++ (")".toList ++ rest))) :
    LexesTo line (render { modifier := .tuple, args := [inner] }).toList
      (mark line "(" :: (ts ++ [mark line' ","] ++ [mark line' ")"])) line' rest := by
  have hrender : (render { modifier := .tuple, args := [inner] }).toList =
      "(".toList ++ (inner.render.toList ++ ",".toList) ++ ")".toList := by simp [render]
  have hcomma : LexesTo line' ",".toList [mark line' ","] line' (")".toList ++ rest) :=
    (Lexes.punct (by decide)).lexesTo
  rw [hrender]
  exact LexesTo.between (by decide) (by decide) (h.append hcomma)

theorem lexesTo_slice (h : LexesTo line inner.render.toList ts line' ("]".toList ++ rest)) :
    LexesTo line (render { modifier := .slice, args := [inner] }).toList
      (mark line "[" :: (ts ++ [mark line' "]"])) line' rest := by
  have hrender : (render { modifier := .slice, args := [inner] }).toList =
      "[".toList ++ inner.render.toList ++ "]".toList := by simp [render]
  rw [hrender]
  exact LexesTo.between (by decide) (by decide) h

theorem lexesTo_array {length : String}
    (h : LexesTo line inner.render.toList ts mid
      (";".toList ++ [' '] ++ length.toList ++ ("]".toList ++ rest)))
    (hlength : LexesTo mid length.toList us line' ("]".toList ++ rest)) :
    LexesTo line (render { modifier := .array, args := [inner], length }).toList
      (mark line "[" :: (ts ++ mark mid ";" :: us ++ [mark line' "]"])) line' rest := by
  have hrender : (render { modifier := .array, args := [inner], length }).toList =
      "[".toList ++ (inner.render.toList ++ (";".toList ++ [' '] ++ length.toList)) ++
        "]".toList := by simp [render]
  have hsemicolon : LexesTo mid (";".toList ++ [' ']) [mark mid ";"] mid
      (length.toList ++ ("]".toList ++ rest)) :=
    (Lexes.append (Lexes.punct (by decide)) Lexes.blank).lexesTo
  rw [hrender]
  exact LexesTo.between (by decide) (by decide) (h.append (hsemicolon.append hlength))

end Forms

/-! ### Texts that are lexed as what spells a reference -/

/-- In front of whatever separates words, the lexer makes tokens of the text that spell the
reference. -/
def Writes (text : String) (r : Reference) : Prop :=
  ∀ line rest, Separates rest →
    ∃ ts line', LexesTo line text.toList ts line' rest ∧ Spells ts r

/-- Texts with commas between them, each on the line where the one before it ends. -/
theorem writes_commaSeparated (h : ∀ a ∈ args, Writes a.render a) (line : Nat) {rest : List Char}
    (hrest : Separates rest) :
    ∃ ts line', LexesTo line (commaSeparated (args.map render)).toList ts line' rest ∧
      SpellsAll ts args args.isEmpty := by
  unfold commaSeparated
  rw [String.toList_intercalate, List.map_map]
  induction args generalizing line with
  | nil => exact ⟨[], line, Lexes.nil.lexesTo, .nil⟩
  | cons a args ih =>
      cases args with
      | nil =>
          obtain ⟨ts, line', hlexes, hspells⟩ := h a (by simp) line rest hrest
          exact ⟨ts, line', by simpa using hlexes, .last hspells⟩
      | cons b args =>
          have hsep : ∀ cs, Separates (", ".toList ++ cs) := fun _ => separates_cons.mpr (by decide)
          obtain ⟨ts, mid, hlexes, hspells⟩ := h a (by simp) line _ (hsep _)
          obtain ⟨us, line', hmore, hall⟩ := ih (fun c hc => h c (by simp [hc])) mid
          simp only [List.map_cons, List.intercalate_cons_cons] at hmore ⊢
          exact ⟨ts ++ [mark mid ","] ++ us, line', (hlexes.append Lexes.comma.lexesTo).append hmore,
            by simpa using SpellsAll.cons hspells hall⟩

namespace Writes

theorem path {first : String} {more : List String}
    (hsegments : ∀ s ∈ first :: more, isIdentifier s = true) (hstart : first ∉ reservedStarts)
    (h : ∀ a ∈ args, Writes a.render a) :
    Writes (render { segments := first :: more, args }) { segments := first :: more, args } := by
  intro line rest hrest
  have hpath : ∀ rest, Separates rest → LexesTo line ("::".intercalate (first :: more)).toList
      (name line first :: moreTokens line more) line rest := by
    intro rest hrest
    rw [← segmentTokens_cons hsegments]
    exact (Lexes.segments (fun s hs => standsAlone_identifier (hsegments s hs)) hrest).lexesTo
  cases args with
  | nil =>
      have hrender : render { segments := first :: more } = "::".intercalate (first :: more) := by
        simp [render]
      refine ⟨name line first :: moreTokens line more, line, ?_,
        .bare (.inl rfl) hstart (continues_moreTokens more)⟩
      rw [hrender]
      exact hpath rest hrest
  | cons a args =>
      have hrender : (render { segments := first :: more, args := a :: args }).toList =
          ("::".intercalate (first :: more)).toList ++
            ("<".toList ++ (commaSeparated ((a :: args).map render)).toList ++ ">".toList) := by
        simp [render]
      have hclose : Separates (">".toList ++ rest) := separates_cons.mpr (by decide)
      obtain ⟨ts, line', hlexes, hspells⟩ := writes_commaSeparated h line hclose
      refine ⟨name line first :: (moreTokens line more ++ mark line "<" :: (ts ++ [mark line' ">"])),
        line', ?_, hspells.path (.inl rfl) hstart (continues_moreTokens more)⟩
      have hopen : Separates ("<".toList ++ (commaSeparated ((a :: args).map render)).toList ++
          ">".toList ++ rest) := separates_cons.mpr (by decide)
      have harguments : LexesTo line
          ("<".toList ++ (commaSeparated ((a :: args).map render)).toList ++ ">".toList)
          (mark line "<" :: (ts ++ [mark line' ">"])) line' rest :=
        LexesTo.between (by decide) (by decide) hlexes
      rw [hrender]
      exact (hpath _ hopen).append harguments

theorem ampersand {lifetime : String} (exclusive : Bool)
    (hlifetime : lifetime = "" ∨ isLifetime lifetime = true) (h : Writes inner.render inner) :
    Writes (render { modifier := Reference.ampersand exclusive, args := [inner], lifetime })
      { modifier := Reference.ampersand exclusive, args := [inner], lifetime } := by
  intro line rest hrest
  obtain ⟨ts, line', hlexes, hspells⟩ := h line rest hrest
  refine ⟨_, line', lexesTo_ampersand exclusive hlifetime hlexes, ?_⟩
  cases exclusive with
  | false => exact .shared hspells
  | true => exact .exclusive hspells

theorem star (exclusive : Bool) (h : Writes inner.render inner) :
    Writes (render { modifier := Reference.star exclusive, args := [inner] })
      { modifier := Reference.star exclusive, args := [inner] } := by
  intro line rest hrest
  obtain ⟨ts, line', hlexes, hspells⟩ := h line rest hrest
  exact ⟨_, line', lexesTo_star exclusive hlexes, .star exclusive hspells⟩

theorem tuple (h : ∀ a ∈ args, Writes a.render a) :
    Writes (render { modifier := .tuple, args }) { modifier := .tuple, args } := by
  intro line rest hrest
  by_cases hone : args.length = 1
  · obtain ⟨a, rfl⟩ := List.length_eq_one_iff.mp hone
    obtain ⟨ts, line', hlexes, hspells⟩ := h a (by simp) line (",".toList ++ (")".toList ++ rest))
      (separates_cons.mpr (by decide))
    exact ⟨_, line', lexesTo_tuple_one hlexes, (SpellsAll.cons hspells .nil).tuple fun _ => rfl⟩
  · have hclose : Separates (")".toList ++ rest) := separates_cons.mpr (by decide)
    obtain ⟨ts, line', hlexes, hspells⟩ := writes_commaSeparated h line hclose
    exact ⟨_, line', lexesTo_tuple hone hlexes, hspells.tuple fun h => absurd h hone⟩

theorem slice (h : Writes inner.render inner) :
    Writes (render { modifier := .slice, args := [inner] })
      { modifier := .slice, args := [inner] } := by
  intro line rest hrest
  obtain ⟨ts, line', hlexes, hspells⟩ := h line ("]".toList ++ rest)
    (separates_cons.mpr (by decide))
  exact ⟨_, line', lexesTo_slice hlexes, .slice hspells⟩

theorem array {length : String} (hlength : OneToken length) (h : Writes inner.render inner) :
    Writes (render { modifier := .array, args := [inner], length })
      { modifier := .array, args := [inner], length } := by
  intro line rest hrest
  obtain ⟨hne, kind, hinner, hlexesLength⟩ := hlength.lexes
  obtain ⟨ts, mid, hlexes, hspells⟩ := h line
    (";".toList ++ [' '] ++ length.toList ++ ("]".toList ++ rest)) (separates_cons.mpr (by decide))
  obtain ⟨line', hlength'⟩ := hlexesLength mid
  exact ⟨_, line', lexesTo_array hlexes (hlength' rest), .array (hinner mid) hne hspells⟩

end Writes

namespace Simple

/-- **The text of a simple reference is lexed as tokens that spell it.** -/
theorem writes (h : r.Simple) : Writes r.render r := by
  induction h with
  | path hsegments hstart _ ih => exact .path hsegments hstart ih
  | ampersand exclusive hlifetime _ ih => exact .ampersand exclusive hlifetime ih
  | star exclusive _ ih => exact .star exclusive ih
  | tuple _ ih => exact .tuple ih
  | slice _ ih => exact .slice ih
  | array hlength _ ih => exact .array hlength ih

/-- Names and numbers are tokens, so what is plain is simple. -/
theorem of_plain (h : r.Plain) : r.Simple := by
  induction h with
  | path hsegments hstart _ ih => exact .path hsegments hstart ih
  | ampersand exclusive hlifetime _ ih => exact .ampersand exclusive hlifetime ih
  | star exclusive _ ih => exact .star exclusive ih
  | tuple _ ih => exact .tuple ih
  | slice _ ih => exact .slice ih
  | array hlength _ ih =>
      refine .array ?_ ih
      rcases hlength with hname | hnumber
      · exact .of_lexes (by simp) (Lexes.identifier hname separates_nil)
      · exact .of_lexes (by simp) (Lexes.number hnumber separates_nil)

/-- A simple reference is what its text is parsed as. -/
theorem parse_eq (h : r.Simple) : parse r.render = .ok r := by
  obtain ⟨ts, line', hlexes, hspells⟩ := h.writes 1 [] separates_nil
  exact hspells.reads.parse_eq hlexes.lexFrom_eq

end Simple

end Reference

end ConversionClosure
