/-
From text to tokens.

A text is cut into pieces from left to right.  A piece is a token or a filler: one blank,
one comment, the shebang line, or the mark of a raw name.  No piece is empty and nothing
is lost between pieces (`next_splits`), and the line of a token follows from the pieces
before it.
-/
import ConversionClosure.Token.Basic

namespace ConversionClosure

/-- What a dropped piece of text is. -/
inductive Filler
  | blank
  | lineComment
  | blockComment
  | shebang
  | rawMark
deriving DecidableEq, Repr

/-- A stretch of text that is one token or is dropped as a whole. -/
inductive Piece
  | filler (kind : Filler) (text : List Char)
  | token (kind : TokenKind) (text : List Char)
deriving DecidableEq, Repr

namespace Piece

/-- The stretch of text itself. -/
def text : Piece → List Char
  | filler _ text => text
  | token _ text => text

@[simp] theorem text_filler (kind : Filler) (cs : List Char) : (filler kind cs).text = cs := rfl

@[simp] theorem text_token (kind : TokenKind) (cs : List Char) : (token kind cs).text = cs := rfl

/-- The number of line ends in the piece. -/
def breaks (p : Piece) : Nat := p.text.count '\n'

/-! ### Where a piece ends

Each function takes the text after the characters that tell what the piece is, and splits
it after the end of the piece; `none` says that there is no end.
-/

/-- Puts characters in front of the first half of a split. -/
def onto (front : List Char) (split : List Char × List Char) : List Char × List Char :=
  (front ++ split.1, split.2)

/-- The rest of a block comment `depth` levels deep; comments nest. -/
def commentRest : Nat → List Char → Option (List Char × List Char)
  | 0, cs => some ([], cs)
  | _ + 1, [] => none
  | depth + 1, '/' :: '*' :: cs => (commentRest (depth + 2) cs).map (onto ['/', '*'])
  | depth + 1, '*' :: '/' :: cs => (commentRest depth cs).map (onto ['*', '/'])
  | depth + 1, c :: cs => (commentRest (depth + 1) cs).map (onto [c])

/-- The rest of a string literal: up to a quote that no backslash stands before. -/
def stringRest : List Char → Option (List Char × List Char)
  | [] => none
  | ['\\'] => none
  | '\\' :: c :: cs => (stringRest cs).map (onto ['\\', c])
  | '"' :: cs => some (['"'], cs)
  | c :: cs => (stringRest cs).map (onto [c])

/-- The rest of a raw string literal: up to a quote followed by `hashes` hashes. -/
def rawStringRest (hashes : Nat) : List Char → Option (List Char × List Char)
  | [] => none
  | c :: cs =>
    if c = '"' ∧ (List.replicate hashes '#').isPrefixOf cs then
      some (c :: List.replicate hashes '#', cs.drop hashes)
    else (rawStringRest hashes cs).map (onto [c])

/-! ### One piece -/

/-- The string literal whose quote has just been read after `front`. -/
def stringLiteral (front cs : List Char) : Except LexCause (List Piece × List Char) :=
  match stringRest cs with
  | some (text, rest) => .ok ([token .literal (front ++ '"' :: text)], rest)
  | none => .error .openString

/-- The raw string literal whose hashes or quote come next after `front`. -/
def rawStringLiteral (front cs : List Char) : Except LexCause (List Piece × List Char) :=
  let hashes := cs.takeWhile (· == '#')
  match cs.dropWhile (· == '#') with
  | '"' :: body =>
    match rawStringRest hashes.length body with
    | some (text, rest) => .ok ([token .literal (front ++ hashes ++ '"' :: text)], rest)
    | none => .error .openRawString
  | _ => .error .malformedRawString

/-- What follows a single quote: an escaped character, any one character before a closing
quote, or the name of a lifetime. -/
def quoteRest : List Char → Except LexCause (TokenKind × List Char × List Char)
  | ['\\'] => .error .openCharacter
  | '\\' :: c :: cs =>
    match cs.dropWhile (· != '\'') with
    | quote :: rest => .ok (.literal, '\\' :: c :: cs.takeWhile (· != '\'') ++ [quote], rest)
    | [] => .error .openCharacter
  | c :: '\'' :: rest => .ok (.literal, [c, '\''], rest)
  | c :: cs =>
    if Text.isNameStart c then
      .ok (.lifetime, c :: cs.takeWhile Text.isNameChar, cs.dropWhile Text.isNameChar)
    else .error .strayQuote
  | [] => .error .strayQuote

/-- The lifetime or character literal whose quote has just been read. -/
def quote (cs : List Char) : Except LexCause (List Piece × List Char) :=
  (quoteRest cs).map fun (kind, text, rest) => ([token kind ('\'' :: text)], rest)

/-- The byte literal whose quote has just been read after a `b`; a name after the quote makes
it a literal too. -/
def byteLiteral (cs : List Char) : Except LexCause (List Piece × List Char) :=
  (quoteRest cs).map fun (_, text, rest) => ([token .literal ('b' :: '\'' :: text)], rest)

/-- A quote, or a hash and then a hash or a quote: what makes an `r` the start of a raw string. -/
def opensRawString : List Char → Bool
  | '"' :: _ => true
  | '#' :: c :: _ => c == '"' || c == '#'
  | _ => false

/-- The name after the mark of a raw name. -/
def rawName? : List Char → Option (Char × List Char)
  | '#' :: c :: cs => if Text.isNameStart c then some (c, cs) else none
  | _ => none

/-- A name, or the literal that the first letters of a name announce. -/
def word (c : Char) (cs : List Char) : Except LexCause (List Piece × List Char) :=
  let isByteOrC := c == 'b' || c == 'c'
  if isByteOrC && cs.head? == some '"' then stringLiteral [c] cs.tail
  else if c == 'b' && cs.head? == some '\'' then byteLiteral cs.tail
  else if isByteOrC && cs.head? == some 'r' &&
      (cs.tail.head? == some '"' || cs.tail.head? == some '#') then
    rawStringLiteral [c, 'r'] cs.tail
  else if c == 'r' && opensRawString cs then rawStringLiteral [c] cs
  else
    match if c == 'r' then rawName? cs else none with
    | some (d, ds) =>
      .ok ([filler .rawMark ['r', '#'], token .ident (d :: ds.takeWhile Text.isNameChar)],
        ds.dropWhile Text.isNameChar)
    | none =>
      .ok ([token .ident (c :: cs.takeWhile Text.isNameChar)], cs.dropWhile Text.isNameChar)

/-- One punctuation mark; `::`, `->` and `=>` are one mark each. -/
def mark (c : Char) : List Char → List Piece × List Char
  | d :: cs =>
    if (c, d) ∈ [(':', ':'), ('-', '>'), ('=', '>')] then ([token .punct [c, d]], cs)
    else ([token .punct [c]], d :: cs)
  | [] => ([token .punct [c]], [])

/-- The first piece of a text that is not empty, and the text after it.  A raw name gives two
pieces, its mark and the name. -/
def next (c : Char) (cs : List Char) : Except LexCause (List Piece × List Char) :=
  if Text.isBlank c then .ok ([filler .blank [c]], cs)
  else if c == '/' && cs.head? == some '/' then
    .ok ([filler .lineComment (c :: cs.takeWhile (· != '\n'))], cs.dropWhile (· != '\n'))
  else if c == '/' && cs.head? == some '*' then
    match commentRest 1 cs.tail with
    | some (text, rest) => .ok ([filler .blockComment ('/' :: '*' :: text)], rest)
    | none => .error .openComment
  else if c == '"' then stringLiteral [] cs
  else if c == '\'' then quote cs
  else if Text.isNameStart c then word c cs
  else if Text.isDigit c then
    .ok ([token .literal (c :: cs.takeWhile Text.isNameChar)], cs.dropWhile Text.isNameChar)
  else .ok (mark c cs)

/-! ### Nothing is lost -/

/-- The two halves of a split are the text. -/
theorem onto_append (front : List Char) (split : List Char × List Char) :
    (onto front split).1 ++ (onto front split).2 = front ++ (split.1 ++ split.2) := by
  simp [onto]

theorem commentRest_append {depth : Nat} {cs : List Char} {split : List Char × List Char}
    (h : commentRest depth cs = some split) : split.1 ++ split.2 = cs := by
  fun_induction commentRest depth cs generalizing split with
  | case1 => cases h; rfl
  | case2 => simp at h
  | case3 _ _ ih | case4 _ _ ih | case5 _ _ _ _ _ ih =>
    obtain ⟨inner, hinner, rfl⟩ := Option.map_eq_some_iff.1 h
    rw [onto_append, ih hinner]
    rfl

theorem stringRest_append {cs : List Char} {split : List Char × List Char}
    (h : stringRest cs = some split) : split.1 ++ split.2 = cs := by
  fun_induction stringRest cs generalizing split with
  | case1 => simp at h
  | case2 => simp at h
  | case3 _ _ ih | case5 _ _ _ _ _ ih =>
    obtain ⟨inner, hinner, rfl⟩ := Option.map_eq_some_iff.1 h
    rw [onto_append, ih hinner]
    rfl
  | case4 => cases h; rfl

theorem rawStringRest_append {hashes : Nat} {cs : List Char} {split : List Char × List Char}
    (h : rawStringRest hashes cs = some split) : split.1 ++ split.2 = cs := by
  induction cs generalizing split with
  | nil => simp [rawStringRest] at h
  | cons c cs ih =>
    simp only [rawStringRest] at h
    split at h
    · next hp =>
      cases h
      obtain ⟨rest, rfl⟩ := List.isPrefixOf_iff_prefix.1 hp.2
      simp
    · obtain ⟨inner, hinner, rfl⟩ := Option.map_eq_some_iff.1 h
      rw [onto_append, ih hinner]
      rfl

/-- The text that a list of pieces covers. -/
def cover (ps : List Piece) : List Char := ps.flatMap text

@[simp] theorem cover_nil : cover [] = [] := rfl

@[simp] theorem cover_cons (p : Piece) (ps : List Piece) : cover (p :: ps) = p.text ++ cover ps := rfl

@[simp] theorem cover_append (ps qs : List Piece) : cover (ps ++ qs) = cover ps ++ cover qs :=
  List.flatMap_append

/-- The pieces and the rest make up the text `cs`, and no piece is empty. -/
structure Splits (cs : List Char) (split : List Piece × List Char) : Prop where
  cover_append : cover split.1 ++ split.2 = cs
  text_ne_nil : ∀ p ∈ split.1, p.text ≠ []
  ne_nil : split.1 ≠ []

theorem Splits.one {cs : List Char} {p : Piece} {rest : List Char}
    (h : p.text ++ rest = cs) (hp : p.text ≠ []) : Splits cs ([p], rest) :=
  ⟨by simpa using h, by simpa using hp, by simp⟩

theorem Splits.dropWhile {c : Char} {cs : List Char} {p : Char → Bool} {piece : Piece}
    (h : piece.text = c :: cs.takeWhile p) : Splits (c :: cs) ([piece], cs.dropWhile p) :=
  .one (by simp [h]) (by simp [h])

theorem stringLiteral_splits {front cs : List Char} {split : List Piece × List Char}
    (h : stringLiteral front cs = .ok split) : Splits (front ++ '"' :: cs) split := by
  simp only [stringLiteral] at h
  split at h
  · next body rest hs =>
    cases h
    have hcs : body ++ rest = cs := stringRest_append hs
    exact .one (by simp [← hcs]) (by simp)
  · cases h

theorem rawStringLiteral_splits {front cs : List Char} {split : List Piece × List Char}
    (h : rawStringLiteral front cs = .ok split) : Splits (front ++ cs) split := by
  simp only [rawStringLiteral] at h
  split at h
  · next body hd =>
    split at h
    · next inner rest hs =>
      cases h
      have hbody : inner ++ rest = body := rawStringRest_append hs
      have hcs := List.takeWhile_append_dropWhile (p := (· == '#')) (l := cs)
      rw [hd, ← hbody] at hcs
      refine .one ?_ (by simp)
      generalize List.takeWhile (· == '#') cs = hashes at hcs ⊢
      simp [← hcs]
    · cases h
  · cases h

theorem quoteRest_append {cs : List Char} {kind : TokenKind} {body rest : List Char}
    (h : quoteRest cs = .ok (kind, body, rest)) : body ++ rest = cs := by
  simp only [quoteRest] at h
  split at h
  · cases h
  · next c inner =>
    split at h
    · next q after hd =>
      cases h
      have hcs := List.takeWhile_append_dropWhile (p := (· != '\'')) (l := inner)
      rw [hd] at hcs
      generalize List.takeWhile (· != '\'') inner = front at hcs ⊢
      simp [← hcs]
    · cases h
  · cases h; rfl
  · split at h
    · cases h; simp
    · cases h
  · cases h

theorem quote_splits {cs : List Char} {split : List Piece × List Char}
    (h : quote cs = .ok split) : Splits ('\'' :: cs) split := by
  cases hq : quoteRest cs with
  | error => simp [quote, hq, Except.map] at h
  | ok r =>
    simp only [quote, hq, Except.map, Except.ok.injEq] at h
    exact h ▸ .one (by simp [quoteRest_append hq]) (by simp)

theorem byteLiteral_splits {cs : List Char} {split : List Piece × List Char}
    (h : byteLiteral cs = .ok split) : Splits ('b' :: '\'' :: cs) split := by
  cases hq : quoteRest cs with
  | error => simp [byteLiteral, hq, Except.map] at h
  | ok r =>
    simp only [byteLiteral, hq, Except.map, Except.ok.injEq] at h
    exact h ▸ .one (by simp [quoteRest_append hq]) (by simp)

theorem eq_cons_of_head? {cs : List Char} {c : Char} (h : (cs.head? == some c) = true) :
    cs = c :: cs.tail := by
  cases cs with
  | nil => simp at h
  | cons d cs => simpa using h

theorem eq_of_rawName? {c d : Char} {cs ds : List Char}
    (h : (if c == 'r' then rawName? cs else none) = some (d, ds)) :
    c = 'r' ∧ cs = '#' :: d :: ds := by
  split at h
  · next hc =>
    simp only [rawName?] at h
    split at h
    · split at h
      · cases h; exact ⟨by simpa using hc, rfl⟩
      · cases h
    · cases h
  · cases h

theorem word_splits {c : Char} {cs : List Char} {split : List Piece × List Char}
    (h : word c cs = .ok split) : Splits (c :: cs) split := by
  simp only [word, Bool.and_eq_true] at h
  split at h
  · next hc =>
    rw [eq_cons_of_head? hc.2]
    exact stringLiteral_splits h
  split at h
  · next hc =>
    rw [eq_cons_of_head? hc.2, eq_of_beq hc.1]
    exact byteLiteral_splits h
  split at h
  · next hc =>
    rw [eq_cons_of_head? hc.1.2]
    exact rawStringLiteral_splits h
  split at h
  · exact rawStringLiteral_splits h
  split at h
  · next d ds hr =>
    obtain ⟨rfl, rfl⟩ := eq_of_rawName? hr
    cases h
    exact ⟨by simp, by simp, by simp⟩
  · cases h
    exact .dropWhile rfl

theorem mark_splits (c : Char) (cs : List Char) : Splits (c :: cs) (mark c cs) := by
  cases cs with
  | nil => exact .one (by simp) (by simp)
  | cons d cs =>
    rw [mark]
    split
    · exact .one (by simp) (by simp)
    · exact .one (by simp) (by simp)

/-- One step of the lexer loses nothing. -/
theorem next_splits {c : Char} {cs : List Char} {split : List Piece × List Char}
    (h : next c cs = .ok split) : Splits (c :: cs) split := by
  simp only [next] at h
  split at h
  · cases h; exact .one (by simp) (by simp)
  split at h
  · cases h; exact .dropWhile rfl
  split at h
  · next hc =>
    rw [Bool.and_eq_true] at hc
    split at h
    · next body rest hs =>
      cases h
      have htail : body ++ rest = cs.tail := commentRest_append hs
      rw [eq_cons_of_head? hc.2, eq_of_beq hc.1, ← htail]
      exact .one (by simp) (by simp)
    · cases h
  split at h
  · next hc => rw [eq_of_beq hc]; exact stringLiteral_splits h
  split at h
  · next hc => rw [eq_of_beq hc]; exact quote_splits h
  split at h
  · exact word_splits h
  split at h
  · cases h; exact .dropWhile rfl
  · cases h; exact mark_splits c cs

/-- One step of the lexer makes the text shorter. -/
theorem length_lt_of_next {c : Char} {cs rest : List Char} {ps : List Piece}
    (h : next c cs = .ok (ps, rest)) : rest.length < (c :: cs).length := by
  obtain ⟨hcover, hne, hps⟩ := next_splits h
  cases ps with
  | nil => exact absurd rfl hps
  | cons p ps =>
    have hp : 0 < p.text.length := List.length_pos_iff.2 (hne p (List.mem_cons_self ..))
    have hlen := congrArg List.length hcover
    simp only [cover_cons, List.length_append] at hlen
    omega

/-! ### All pieces -/

/-- The number of line ends in a list of pieces. -/
def breaksAll (ps : List Piece) : Nat := (cover ps).count '\n'

/-- The pieces of a text whose first line has the number `line`. -/
def piecesFrom (line : Nat) : List Char → Except LexFault (List Piece)
  | [] => .ok []
  | c :: cs =>
    match _h : next c cs with
    | .error cause => .error ⟨cause, line⟩
    | .ok (ps, rest) => (piecesFrom (line + breaksAll ps) rest).map (ps ++ ·)
termination_by cs => cs.length
decreasing_by exact length_lt_of_next _h

/-- The pieces of a whole text: a first line that starts with `#!`, and not with `#![`, is the
shebang. -/
def pieces (cs : List Char) : Except LexFault (List Piece) :=
  if ['#', '!'].isPrefixOf cs && !(['#', '!', '['].isPrefixOf cs) then
    (piecesFrom 1 (cs.dropWhile (· != '\n'))).map
      (filler .shebang (cs.takeWhile (· != '\n')) :: ·)
  else piecesFrom 1 cs

/-- The tokens among pieces that begin on the line `line`. -/
def tokensFrom (line : Nat) : List Piece → List Token
  | [] => []
  | filler kind cs :: ps => tokensFrom (line + (filler kind cs).breaks) ps
  | token kind cs :: ps =>
    ⟨kind, String.ofList cs, line⟩ :: tokensFrom (line + (token kind cs).breaks) ps

end Piece

/-- The tokens of a text. -/
def lex (text : String) : Except LexFault (List Token) :=
  (Piece.pieces text.toList).map (Piece.tokensFrom 1)

end ConversionClosure
