/-
Texts that are cut into known tokens.

The lexer decides at every place by the characters that follow, so what it makes of a text
depends on what stands behind it.  `Lexes line cs ts rest` says that on the line `line` it makes
the tokens `ts` of `cs` when `rest` comes next, and then goes on with `rest` on the same line.
Such facts are put together one after the other, each with the text behind it as its `rest`.

A word is the one thing that goes on as long as it can.  So it needs a `rest` that cannot
continue it, and that does not turn it into the start of a literal either: `Separates`.
-/
import ConversionClosure.Token.Brackets

namespace ConversionClosure

namespace Text

variable {c d : Char} {cs rest : List Char}

/-- A character that no word goes on with and no literal is announced by. -/
def isSeparator (c : Char) : Bool := !isNameChar c && c != '"' && c != '\'' && c != '#'

/-- A text that may stand behind a word. -/
def Separates (rest : List Char) : Prop := ∀ c ∈ rest.head?, isSeparator c = true

@[simp] theorem separates_nil : Separates [] := by simp [Separates]

@[simp] theorem separates_cons : Separates (c :: cs) ↔ isSeparator c = true := by
  simp [Separates]

theorem isNameChar_of_isSeparator (h : isSeparator c = true) : isNameChar c = false := by
  simp only [isSeparator, Bool.and_eq_true, Bool.not_eq_true'] at h
  exact h.1.1.1

/-- What follows inside a word, or behind it, is no mark of a literal. -/
theorem head?_append_ne (hcs : ∀ c ∈ cs, isNameChar c = true) (hrest : Separates rest)
    (hname : isNameChar d = false) (hsep : isSeparator d = false) :
    ((cs ++ rest).head? == some d) = false := by
  rw [beq_eq_false_iff_ne]
  intro hd
  cases cs with
  | nil =>
      have hd' := hrest d hd
      rw [hsep] at hd'
      exact absurd hd' (by simp)
  | cons c cs =>
      obtain rfl : c = d := by simpa using hd
      have hc := hcs c (by simp)
      rw [hname] at hc
      exact absurd hc (by simp)

theorem takeWhile_append (hcs : ∀ c ∈ cs, isNameChar c = true) (hrest : Separates rest) :
    (cs ++ rest).takeWhile isNameChar = cs := by
  rw [List.takeWhile_append_of_pos hcs]
  cases rest with
  | nil => simp
  | cons d rest => simp [isNameChar_of_isSeparator (separates_cons.mp hrest)]

theorem dropWhile_append (hcs : ∀ c ∈ cs, isNameChar c = true) (hrest : Separates rest) :
    (cs ++ rest).dropWhile isNameChar = rest := by
  rw [List.dropWhile_append_of_pos hcs]
  cases rest with
  | nil => simp
  | cons d rest => simp [isNameChar_of_isSeparator (separates_cons.mp hrest)]

/-- A character of a name is nothing that the lexer looks for before it looks for a name. -/
theorem ne_of_isNameChar (h : isNameChar c = true) :
    isBlank c = false ∧ c ≠ '/' ∧ c ≠ '"' ∧ c ≠ '\'' ∧ c ≠ '\\' := by
  refine ⟨?_, ?_, ?_, ?_, ?_⟩
  · cases hblank : isBlank c with
    | false => rfl
    | true => simp [isNameChar_of_isBlank hblank] at h
  all_goals
    rintro rfl
    revert h
    decide

/-- A text that is one name. -/
def isIdentifier (text : String) : Bool :=
  match text.toList with
  | [] => false
  | c :: cs => isNameStart c && cs.all isNameChar

/-- A text that is one number, or starts like one. -/
def isNumber (text : String) : Bool :=
  match text.toList with
  | [] => false
  | c :: cs => isDigit c && !isNameStart c && cs.all isNameChar

/-- A text that is one lifetime. -/
def isLifetime (text : String) : Bool :=
  match text.toList with
  | '\'' :: c :: cs => isNameStart c && cs.all isNameChar
  | _ => false

variable {text : String}

theorem isIdentifier_iff : isIdentifier text = true ↔
    ∃ c cs, text.toList = c :: cs ∧ isNameStart c = true ∧ ∀ x ∈ cs, isNameChar x = true := by
  unfold isIdentifier
  split
  · rename_i h
    simp [h]
  · rename_i c cs h
    simp [h, and_assoc]

theorem isNumber_iff : isNumber text = true ↔
    ∃ c cs, text.toList = c :: cs ∧ (isDigit c = true ∧ isNameStart c = false) ∧
      ∀ x ∈ cs, isNameChar x = true := by
  unfold isNumber
  split
  · rename_i h
    simp [h]
  · rename_i c cs h
    simp [h, and_assoc]

theorem isLifetime_iff : isLifetime text = true ↔
    ∃ c cs, text.toList = '\'' :: c :: cs ∧ isNameStart c = true ∧
      ∀ x ∈ cs, isNameChar x = true := by
  unfold isLifetime
  split
  · rename_i c cs h
    simp [h, and_assoc]
  · rename_i h
    simp only [Bool.false_eq_true, false_iff]
    intro hex
    obtain ⟨c, cs, hcs, -⟩ := hex
    exact h c cs hcs

end Text

namespace Piece

open Text

variable {c d : Char} {cs rest : List Char}

/-! ### The next piece -/

theorem opensRawString_eq_false (hquote : (cs.head? == some '"') = false)
    (hhash : (cs.head? == some '#') = false) : opensRawString cs = false := by
  unfold opensRawString
  split
  · simp at hquote
  · simp at hhash
  · rfl

theorem rawName?_eq_none (hhash : (cs.head? == some '#') = false) : rawName? cs = none := by
  unfold rawName?
  split
  · simp at hhash
  · rfl

theorem word_append (hcs : ∀ x ∈ cs, isNameChar x = true) (hrest : Separates rest) :
    word c (cs ++ rest) = .ok ([token .ident (c :: cs)], rest) := by
  have hquote : ((cs ++ rest).head? == some '"') = false :=
    head?_append_ne hcs hrest (by decide) (by decide)
  have htick : ((cs ++ rest).head? == some '\'') = false :=
    head?_append_ne hcs hrest (by decide) (by decide)
  have hhash : ((cs ++ rest).head? == some '#') = false :=
    head?_append_ne hcs hrest (by decide) (by decide)
  have hraw : ((cs ++ rest).head? == some 'r' &&
      ((cs ++ rest).tail.head? == some '"' || (cs ++ rest).tail.head? == some '#')) = false := by
    cases cs with
    | nil =>
        have hr : ¬ isNameChar 'r' = false := by decide
        rw [Bool.and_eq_false_iff, beq_eq_false_iff_ne]
        refine Or.inl fun h => hr ?_
        exact isNameChar_of_isSeparator (hrest _ h)
    | cons d cs =>
        have htail : ∀ x ∈ cs, isNameChar x = true := fun x hx => hcs x (by simp [hx])
        rw [List.cons_append, List.tail_cons, head?_append_ne htail hrest (by decide) (by decide),
          head?_append_ne htail hrest (by decide) (by decide), Bool.or_self, Bool.and_false]
  unfold word
  simp only [hquote, htick, Bool.and_assoc, hraw, opensRawString_eq_false hquote hhash,
    rawName?_eq_none hhash, Bool.and_false, Bool.false_eq_true, if_false, ite_self,
    takeWhile_append hcs hrest, dropWhile_append hcs hrest]

theorem next_identifier (hc : isNameStart c = true) (hcs : ∀ x ∈ cs, isNameChar x = true)
    (hrest : Separates rest) :
    next c (cs ++ rest) = .ok ([token .ident (c :: cs)], rest) := by
  obtain ⟨hblank, hslash, hquote, htick, -⟩ := ne_of_isNameChar (isNameChar_of_isNameStart hc)
  unfold next
  simp only [hblank, beq_eq_false_iff_ne.mpr hslash, beq_eq_false_iff_ne.mpr hquote,
    beq_eq_false_iff_ne.mpr htick, hc, Bool.false_and, Bool.false_eq_true, if_false, if_true]
  exact word_append hcs hrest

theorem next_number (hc : isDigit c = true) (hstart : isNameStart c = false)
    (hcs : ∀ x ∈ cs, isNameChar x = true) (hrest : Separates rest) :
    next c (cs ++ rest) = .ok ([token .literal (c :: cs)], rest) := by
  obtain ⟨hblank, hslash, hquote, htick, -⟩ := ne_of_isNameChar (isNameChar_of_isDigit hc)
  unfold next
  simp only [hblank, beq_eq_false_iff_ne.mpr hslash, beq_eq_false_iff_ne.mpr hquote,
    beq_eq_false_iff_ne.mpr htick, hc, hstart, Bool.false_and, Bool.false_eq_true, if_false,
    if_true, takeWhile_append hcs hrest, dropWhile_append hcs hrest]

theorem next_lifetime (hc : isNameStart c = true) (hcs : ∀ x ∈ cs, isNameChar x = true)
    (hrest : Separates rest) :
    next '\'' (c :: cs ++ rest) = .ok ([token .lifetime ('\'' :: c :: cs)], rest) := by
  have hne : c ≠ '\\' := (ne_of_isNameChar (isNameChar_of_isNameStart hc)).2.2.2.2
  have htick : ((cs ++ rest).head? == some '\'') = false :=
    head?_append_ne hcs hrest (by decide) (by decide)
  have hblank : isBlank '\'' = false := by decide
  have hquote : quoteRest (c :: (cs ++ rest)) = .ok (.lifetime, c :: cs, rest) := by
    unfold quoteRest
    split
    · rename_i h
      exact absurd (List.cons.inj h).1 hne
    · rename_i h
      exact absurd (List.cons.inj h).1 hne
    · rename_i h
      simp [(List.cons.inj h).2] at htick
    · rename_i h
      obtain ⟨rfl, rfl⟩ := List.cons.inj h
      rw [if_pos hc, takeWhile_append hcs hrest, dropWhile_append hcs hrest]
    · rename_i h
      exact absurd h (by simp)
  unfold next
  rw [List.cons_append]
  simp [hblank, quote, hquote, Except.map]

/-- A character that is one punctuation mark, whatever follows it. -/
def isLoneMark (c : Char) : Bool :=
  !isBlank c && !isNameChar c && !(['/', '"', '\'', ':', '-', '='].contains c)

theorem next_loneMark (h : isLoneMark c = true) :
    next c rest = .ok ([token .punct [c]], rest) := by
  simp only [isLoneMark, Bool.and_eq_true, Bool.not_eq_true', List.contains_cons,
    Bool.or_eq_false_iff, beq_eq_false_iff_ne] at h
  obtain ⟨⟨hblank, hname⟩, hslash, hquote, htick, hcolon, hminus, hequals, -⟩ := h
  have hstart : isNameStart c = false := by
    cases hc : isNameStart c with
    | false => rfl
    | true => simp [isNameChar_of_isNameStart hc] at hname
  have hdigit : isDigit c = false := by
    cases hc : isDigit c with
    | false => rfl
    | true => simp [isNameChar_of_isDigit hc] at hname
  have hmark : mark c rest = ([token .punct [c]], rest) := by
    cases rest with
    | nil => rfl
    | cons d rest => simp [mark, hcolon, hminus, hequals]
  unfold next
  simp only [hblank, beq_eq_false_iff_ne.mpr hslash, beq_eq_false_iff_ne.mpr hquote,
    beq_eq_false_iff_ne.mpr htick, hstart, hdigit, hmark, Bool.false_and, Bool.false_eq_true,
    if_false]

/-- The marks of two characters. -/
def markPairs : List (Char × Char) := [(':', ':'), ('-', '>'), ('=', '>')]

/-- A text that is one punctuation mark, whatever follows it. -/
def isMark (text : String) : Bool :=
  match text.toList with
  | [c] => isLoneMark c
  | [c, d] => markPairs.contains (c, d)
  | _ => false

theorem isMark_iff {text : String} : isMark text = true ↔
    (∃ c, text.toList = [c] ∧ isLoneMark c = true) ∨
      ∃ c d, text.toList = [c, d] ∧ (c, d) ∈ markPairs := by
  unfold isMark
  split
  · rename_i h
    simp [h]
  · rename_i c d h
    simp only [h, List.contains_iff_mem, List.cons.injEq, reduceCtorEq, and_false,
      false_and, exists_false, false_or, and_true]
    constructor
    · intro hmem
      exact ⟨c, d, ⟨rfl, rfl⟩, hmem⟩
    · rintro ⟨_, _, ⟨rfl, rfl⟩, hmem⟩
      exact hmem
  · rename_i hone htwo
    simp only [Bool.false_eq_true, false_iff, not_or, not_exists, not_and]
    exact ⟨fun c h => absurd h (hone c), fun c d h => absurd h (htwo c d)⟩

theorem next_blank (h : isBlank c = true) : next c rest = .ok ([filler .blank [c]], rest) := by
  unfold next
  rw [if_pos h]

/-! ### The lexer on the rest of a text -/

/-- The tokens of a text whose first line has the number `line`. -/
def lexFrom (line : Nat) (cs : List Char) : Except LexFault (List Token) :=
  (piecesFrom line cs).map (tokensFrom line)

@[simp] theorem lexFrom_nil (line : Nat) : lexFrom line [] = .ok [] := by
  rw [lexFrom, piecesFrom.eq_def]
  rfl

theorem tokensFrom_append (line : Nat) (ps qs : List Piece) :
    tokensFrom line (ps ++ qs) = tokensFrom line ps ++ tokensFrom (line + breaksAll ps) qs := by
  induction ps generalizing line with
  | nil => rfl
  | cons p ps ih =>
      have hbreaks : breaksAll (p :: ps) = p.breaks + breaksAll ps := by
        simp [breaksAll, breaks]
      cases p with
      | filler kind cs => rw [List.cons_append, tokensFrom, tokensFrom, ih, hbreaks, Nat.add_assoc]
      | token kind cs =>
          rw [List.cons_append, tokensFrom, tokensFrom, ih, hbreaks, Nat.add_assoc,
            List.cons_append]

theorem lexFrom_of_next {ps : List Piece} (h : next c cs = .ok (ps, rest)) (line : Nat) :
    lexFrom line (c :: cs) =
      (lexFrom (line + breaksAll ps) rest).map (tokensFrom line ps ++ ·) := by
  have hpieces : piecesFrom line (c :: cs) =
      (piecesFrom (line + breaksAll ps) rest).map (ps ++ ·) := by
    -- the equation for a text with a first character is slow to derive
    rw [piecesFrom.eq_def]
    simp only
    split
    · rename_i h'
      rw [h] at h'
      exact absurd h' (by simp)
    · rename_i ps' rest' h'
      rw [h] at h'
      obtain ⟨rfl, rfl⟩ := Prod.mk.inj (Except.ok.inj h')
      rfl
  rw [lexFrom, lexFrom, hpieces]
  cases piecesFrom (line + breaksAll ps) rest with
  | error fault => rfl
  | ok qs => exact congrArg Except.ok (tokensFrom_append line ps qs)

end Piece

namespace Token

/-- A punctuation mark. -/
def mark (line : Nat) (text : String) : Token := ⟨.punct, text, line⟩

/-- A name. -/
def name (line : Nat) (text : String) : Token := ⟨.ident, text, line⟩

end Token

open Piece Text

variable {line : Nat} {c d : Char} {cs ds rest : List Char} {ts us : List Token} {text : String}

/-- The lexer makes the tokens `ts` of the text `cs`, which starts on the line `line` and stands in
front of `rest`, and then goes on with `rest` on the line `line'`. -/
def LexesTo (line : Nat) (cs : List Char) (ts : List Token) (line' : Nat) (rest : List Char) :
    Prop :=
  lexFrom line (cs ++ rest) = (lexFrom line' rest).map (ts ++ ·)

theorem LexesTo.append {mid line' : Nat} (h : LexesTo line cs ts mid (ds ++ rest))
    (h' : LexesTo mid ds us line' rest) : LexesTo line (cs ++ ds) (ts ++ us) line' rest := by
  unfold LexesTo at h h' ⊢
  rw [List.append_assoc, h, h']
  cases lexFrom line' rest with
  | error fault => rfl
  | ok vs => simp [Except.map]

/-- A whole text. -/
theorem LexesTo.lexFrom_eq {line' : Nat} (h : LexesTo line cs ts line' []) :
    lexFrom line cs = .ok ts := by
  rw [LexesTo, List.append_nil, lexFrom_nil] at h
  rw [h, Except.map, List.append_nil]

/-- On the line `line`, the lexer makes the tokens `ts` of the text `cs` in front of `rest`, and
then goes on with `rest` on the same line. -/
def Lexes (line : Nat) (cs : List Char) (ts : List Token) (rest : List Char) : Prop :=
  lexFrom line (cs ++ rest) = (lexFrom line rest).map (ts ++ ·)

namespace Lexes

theorem nil : Lexes line [] [] rest := by
  unfold Lexes
  cases h : lexFrom line rest with
  | error fault => simp [h, Except.map]
  | ok us => simp [h, Except.map]

theorem lexesTo (h : Lexes line cs ts rest) : LexesTo line cs ts line rest := h

theorem append (h : Lexes line cs ts (ds ++ rest)) (h' : Lexes line ds us rest) :
    Lexes line (cs ++ ds) (ts ++ us) rest := h.lexesTo.append h'.lexesTo

theorem of_next {ps : List Piece} (h : next c (cs ++ rest) = .ok (ps, rest))
    (hline : breaksAll ps = 0) : Lexes line (c :: cs) (tokensFrom line ps) rest := by
  unfold Lexes
  rw [List.cons_append, lexFrom_of_next h, hline, Nat.add_zero]

theorem of_token {kind : TokenKind}
    (h : next c (cs ++ rest) = .ok ([Piece.token kind (c :: cs)], rest)) (hline : '\n' ∉ c :: cs) :
    Lexes line (c :: cs) [⟨kind, String.ofList (c :: cs), line⟩] rest := by
  refine of_next h ?_
  rw [breaksAll, cover_cons, cover_nil, List.append_nil]
  exact List.count_eq_zero.mpr hline

/-- A blank that ends no line leaves no token. -/
theorem blank : Lexes line [' '] [] rest := by
  have hnext : next ' ' ([] ++ rest) = .ok ([filler .blank [' ']], rest) := next_blank (by decide)
  exact of_next hnext (by decide)

/-- A mark needs nothing of what follows. -/
theorem punct (h : isMark text = true) : Lexes line text.toList [Token.mark line text] rest := by
  rw [isMark_iff] at h
  have hnext : ∃ c cs, text.toList = c :: cs ∧
      next c (cs ++ rest) = .ok ([Piece.token .punct (c :: cs)], rest) ∧ '\n' ∉ c :: cs := by
    rcases h with ⟨c, htext, hc⟩ | ⟨c, d, htext, hcd⟩
    · refine ⟨c, [], htext, next_loneMark hc, ?_⟩
      rw [List.mem_singleton]
      rintro rfl
      revert hc
      decide
    · refine ⟨c, [d], htext, ?_⟩
      simp only [markPairs, List.mem_cons, List.not_mem_nil, or_false, Prod.mk.injEq] at hcd
      rcases hcd with ⟨rfl, rfl⟩ | ⟨rfl, rfl⟩ | ⟨rfl, rfl⟩
      all_goals exact ⟨rfl, by decide⟩
  obtain ⟨c, cs, htext, hnext, hline⟩ := hnext
  have hlexes : Lexes line (c :: cs) [⟨.punct, String.ofList (c :: cs), line⟩] rest :=
    of_token hnext hline
  rwa [← htext, String.ofList_toList] at hlexes

theorem not_mem_of_isNameChar (hcs : ∀ x ∈ cs, isNameChar x = true) : '\n' ∉ cs := by
  intro hmem
  have hbreak := hcs _ hmem
  revert hbreak
  decide

theorem identifier (h : isIdentifier text = true) (hrest : Separates rest) :
    Lexes line text.toList [Token.name line text] rest := by
  obtain ⟨c, cs, htext, hc, hcs⟩ := isIdentifier_iff.mp h
  have hall : ∀ x ∈ c :: cs, isNameChar x = true :=
    List.forall_mem_cons.mpr ⟨isNameChar_of_isNameStart hc, hcs⟩
  have hlexes : Lexes line (c :: cs) [Token.name line (String.ofList (c :: cs))] rest :=
    of_token (next_identifier hc hcs hrest) (not_mem_of_isNameChar hall)
  rwa [← htext, String.ofList_toList] at hlexes

theorem number (h : isNumber text = true) (hrest : Separates rest) :
    Lexes line text.toList [⟨.literal, text, line⟩] rest := by
  obtain ⟨c, cs, htext, ⟨hc, hstart⟩, hcs⟩ := isNumber_iff.mp h
  have hall : ∀ x ∈ c :: cs, isNameChar x = true :=
    List.forall_mem_cons.mpr ⟨isNameChar_of_isDigit hc, hcs⟩
  have hlexes : Lexes line (c :: cs) [⟨.literal, String.ofList (c :: cs), line⟩] rest :=
    of_token (next_number hc hstart hcs hrest) (not_mem_of_isNameChar hall)
  rwa [← htext, String.ofList_toList] at hlexes

theorem lifetime (h : isLifetime text = true) (hrest : Separates rest) :
    Lexes line text.toList [⟨.lifetime, text, line⟩] rest := by
  obtain ⟨c, cs, htext, hc, hcs⟩ := isLifetime_iff.mp h
  have hall : ∀ x ∈ c :: cs, isNameChar x = true :=
    List.forall_mem_cons.mpr ⟨isNameChar_of_isNameStart hc, hcs⟩
  have hline : '\n' ∉ '\'' :: c :: cs := by
    simpa using not_mem_of_isNameChar hall
  have hlexes : Lexes line ('\'' :: c :: cs) [⟨.lifetime, String.ofList ('\'' :: c :: cs), line⟩]
      rest := of_token (next_lifetime hc hcs hrest) hline
  rwa [← htext, String.ofList_toList] at hlexes

/-- A whole text has one list of tokens. -/
theorem unique {ts' : List Token} (h : Lexes line cs ts []) (h' : Lexes line cs ts' []) :
    ts = ts' := by
  have hlex := h.lexesTo.lexFrom_eq
  rw [h'.lexesTo.lexFrom_eq, Except.ok.injEq] at hlex
  exact hlex.symm

/-- A mark, and then more. -/
theorem punct_append (h : isMark text = true) (hmore : Lexes line ds us rest) :
    Lexes line (text.toList ++ ds) (Token.mark line text :: us) rest :=
  append (punct h) hmore

/-- A name, and then more. -/
theorem identifier_append (h : isIdentifier text = true) (hsep : Separates (ds ++ rest))
    (hmore : Lexes line ds us rest) :
    Lexes line (text.toList ++ ds) (Token.name line text :: us) rest :=
  append (identifier h hsep) hmore

/-- A blank, and then more. -/
theorem blank_append (hmore : Lexes line ds us rest) : Lexes line (' ' :: ds) us rest :=
  append blank hmore

/-- A single colon with a blank behind it, and then more. -/
theorem colon_append (hmore : Lexes line ds us rest) :
    Lexes line (':' :: ' ' :: ds) (Token.mark line ":" :: us) rest := by
  have hnext : next ':' ([] ++ ' ' :: (ds ++ rest)) =
      .ok ([Piece.token .punct [':']], ' ' :: (ds ++ rest)) := rfl
  exact append (of_token hnext (by decide)) (blank_append hmore)

/-- Texts with a separator between them, if each of them is lexed in front of whatever separates
words. -/
theorem intercalate {α : Type} {sep : String} {marks : List Token} {f : α → String}
    {g : α → List Token} {items : List α} (hsep : ∀ rest, Lexes line sep.toList marks rest)
    (hseparates : ∀ rest, Separates (sep.toList ++ rest))
    (hitems : ∀ a ∈ items, ∀ rest, Separates rest → Lexes line (f a).toList (g a) rest)
    (hrest : Separates rest) :
    Lexes line (sep.intercalate (items.map f)).toList (marks.intercalate (items.map g)) rest := by
  rw [String.toList_intercalate, List.map_map]
  induction items with
  | nil => exact nil
  | cons a items ih =>
      cases items with
      | nil => simpa using hitems a (by simp) rest hrest
      | cons b items =>
          have hrec := ih fun c hc => hitems c (by simp [hc])
          simp only [List.map_cons, List.intercalate_cons_cons] at hrec ⊢
          exact append (append (hitems a (by simp) _ (hseparates _)) (hsep _)) hrec

end Lexes

/-- A text that does not start with a hash has no shebang. -/
theorem lex_of_lexFrom (h : lexFrom 1 text.toList = .ok ts)
    (hhash : ∀ t ∈ ts.head?, t.isPunct "#" = false) : lex text = .ok ts := by
  have hprefix : ['#', '!'].isPrefixOf text.toList = false := by
    cases htext : text.toList with
    | nil => rfl
    | cons c cs =>
        by_cases hc : c = '#'
        · exfalso
          have hlexes : Lexes 1 "#".toList [Token.mark 1 "#"] cs := Lexes.punct (by decide)
          have hfirst : lexFrom 1 (c :: cs) = (lexFrom 1 cs).map ([Token.mark 1 "#"] ++ ·) := by
            rw [hc]
            exact hlexes
          rw [htext, hfirst] at h
          cases hrest : lexFrom 1 cs with
          | error fault => simp [hrest, Except.map] at h
          | ok us =>
              rw [hrest] at h
              obtain rfl : Token.mark 1 "#" :: us = ts := Except.ok.inj h
              exact absurd (hhash _ rfl) (by decide)
        · simp [List.isPrefixOf, Ne.symm hc]
  rw [lex, pieces, hprefix, Bool.false_and, if_neg Bool.false_ne_true]
  exact h

/-! ### Texts that stand alone -/

/-- The tokens of a text on one line; a text that cannot be lexed has none. -/
def Token.ofText (line : Nat) (text : String) : List Token :=
  match lexFrom line text.toList with
  | .ok ts => ts
  | .error _ => []

/-- Whatever separates words may follow the text, and its tokens stay what they are. -/
def StandsAlone (text : String) : Prop :=
  ∀ line rest, Separates rest → Lexes line text.toList (Token.ofText line text) rest

theorem Lexes.ofText_eq (h : Lexes line text.toList ts []) : Token.ofText line text = ts := by
  unfold Lexes at h
  rw [List.append_nil, lexFrom_nil] at h
  rw [Token.ofText, h]
  exact List.append_nil ts

theorem standsAlone_of {f : Nat → List Token}
    (h : ∀ line rest, Separates rest → Lexes line text.toList (f line) rest) :
    StandsAlone text := by
  intro line rest hrest
  rw [(h line [] separates_nil).ofText_eq]
  exact h line rest hrest

theorem standsAlone_identifier (h : isIdentifier text = true) : StandsAlone text :=
  standsAlone_of fun _ _ => Lexes.identifier h

theorem standsAlone_number (h : isNumber text = true) : StandsAlone text :=
  standsAlone_of fun _ _ => Lexes.number h

theorem standsAlone_lifetime (h : isLifetime text = true) : StandsAlone text :=
  standsAlone_of fun _ _ => Lexes.lifetime h

theorem ofText_identifier (h : isIdentifier text = true) :
    Token.ofText line text = [Token.name line text] := (Lexes.identifier h separates_nil).ofText_eq

theorem ofText_number (h : isNumber text = true) :
    Token.ofText line text = [⟨.literal, text, line⟩] := (Lexes.number h separates_nil).ofText_eq

theorem ofText_lifetime (h : isLifetime text = true) :
    Token.ofText line text = [⟨.lifetime, text, line⟩] :=
  (Lexes.lifetime h separates_nil).ofText_eq

end ConversionClosure
