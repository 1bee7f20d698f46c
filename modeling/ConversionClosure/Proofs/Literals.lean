/-
Literals and comments that the lexer takes whole.

A string literal goes up to the first quote that no backslash stands before, a raw one up to the
first quote with as many hashes behind it as it began with, and a block comment up to the mark that
closes it when the comments inside of it are counted.  Texts of these three kinds are told here by
what they are made of, and of each the lexer makes one literal, or nothing, wherever it stands and
whatever follows it (`Whole`).  So nothing that is written inside is seen by what reads the tokens.
-/
import ConversionClosure.Proofs.Balance
import ConversionClosure.Proofs.Lines
import ConversionClosure.Proofs.Partition

namespace ConversionClosure

open Piece Text

variable {c : Char} {cs w rest : List Char} {n : Nat}

/-! ### What stands inside -/

/-- What may stand between the quotes of a string: characters other than quotes and backslashes, and
pairs of a backslash and any character. -/
inductive StringBody : List Char → Prop
  | nil : StringBody []
  | char {c : Char} {w : List Char} (hquote : c ≠ '"') (hslash : c ≠ '\\') (h : StringBody w) :
      StringBody (c :: w)
  | escape {c : Char} {w : List Char} (h : StringBody w) : StringBody ('\\' :: c :: w)

/-- What may stand between the quotes of a raw string: no quote in it has the hashes behind it that
would end the string. -/
def RawBody (hashes : Nat) (w : List Char) : Prop := ¬ '"' :: List.replicate hashes '#' <:+: w

instance (hashes : Nat) (w : List Char) : Decidable (RawBody hashes w) :=
  inferInstanceAs (Decidable (¬ '"' :: List.replicate hashes '#' <:+: w))

/-- What may stand between the marks of a block comment: characters that no such mark is made of,
and whole comments. -/
inductive CommentText : List Char → Prop
  | nil : CommentText []
  | char {c : Char} {w : List Char} (hslash : c ≠ '/') (hstar : c ≠ '*') (h : CommentText w) :
      CommentText (c :: w)
  | comment {inner w : List Char} (hinner : CommentText inner) (h : CommentText w) :
      CommentText ('/' :: '*' :: (inner ++ '*' :: '/' :: w))

/-- With the mark that closes it, it is the body of a comment. -/
theorem CommentText.commentBody (h : CommentText w) : CommentBody (w ++ ['*', '/']) := by
  induction h with
  | nil => exact .close
  | char hslash hstar _ ih => exact .char (absurd · hslash) (absurd · hstar) ih
  | @comment inner w _ _ ihinner ih =>
      have hsplit : '/' :: '*' :: (inner ++ '*' :: '/' :: w) ++ ['*', '/'] =
          '/' :: '*' :: ((inner ++ ['*', '/']) ++ (w ++ ['*', '/'])) := by simp
      rw [hsplit]
      exact .nested ihinner ih

namespace Piece

/-! ### Where they end -/

theorem stringRest_body (h : StringBody w) (rest : List Char) :
    stringRest (w ++ '"' :: rest) = some (w ++ ['"'], rest) := by
  induction h with
  | nil => rw [List.nil_append, stringRest]; rfl
  | @char c w hquote hslash _ ih =>
      rw [List.cons_append, stringRest, ih]
      · rfl
      · exact fun hc _ => hslash hc
      · exact fun _ _ hc _ => hslash hc
      · exact hquote
  | escape _ ih =>
      rw [List.cons_append, List.cons_append, stringRest, ih]
      rfl

theorem rawStringRest_body (h : RawBody n w) (rest : List Char) :
    rawStringRest n (w ++ '"' :: (List.replicate n '#' ++ rest)) =
      some (w ++ '"' :: List.replicate n '#', rest) := by
  have hquote : '"' ∉ List.replicate n '#' := by simp [List.mem_replicate]
  induction w with
  | nil =>
      have hend : (List.replicate n '#').isPrefixOf (List.replicate n '#' ++ rest) = true :=
        List.isPrefixOf_iff_prefix.mpr (List.prefix_append _ _)
      simp [rawStringRest, hend]
  | cons c w ih =>
      have hends : ¬ (c = '"' ∧ (List.replicate n '#').isPrefixOf
          (w ++ '"' :: (List.replicate n '#' ++ rest)) = true) := by
        rintro ⟨rfl, hprefix⟩
        -- the hashes would have to stand in front of the last quote
        rw [isPrefixOf_append_stop hquote, List.isPrefixOf_iff_prefix] at hprefix
        exact h ((List.cons_prefix_cons.mpr ⟨rfl, hprefix⟩).isInfix)
      have hrest : RawBody n w := fun hw => h (hw.trans (List.suffix_cons c w).isInfix)
      rw [List.cons_append, rawStringRest, if_neg hends, ih hrest]
      rfl

/-- A comment is over where its body is. -/
theorem commentRest_body {body : List Char} (h : CommentBody body) (depth : Nat)
    (rest : List Char) :
    commentRest (depth + 1) (body ++ rest) = (commentRest depth rest).map (onto body) := by
  induction h generalizing depth rest with
  | close => rw [List.cons_append, List.cons_append, commentRest, List.nil_append]
  | @nested inner more _ _ ihinner ih =>
      rw [List.cons_append, List.cons_append, commentRest, List.append_assoc, ihinner, ih]
      simp only [Option.map_map]
      congr
      funext split
      simp [onto]
  | @char c more hopen hclose hmore ih =>
      obtain ⟨d, ds, rfl⟩ := hmore.exists_cons
      rw [List.cons_append, commentRest, ih]
      · simp only [Option.map_map]
        congr
      · rintro cs rfl hcs
        exact hopen rfl (congrArg some (List.cons.inj hcs).1)
      · rintro cs rfl hcs
        exact hclose rfl (congrArg some (List.cons.inj hcs).1)

/-! ### What the lexer takes -/

theorem stringLiteral_body (front : List Char) (h : StringBody w) (rest : List Char) :
    stringLiteral front (w ++ '"' :: rest) =
      .ok ([token .literal (front ++ '"' :: (w ++ ['"']))], rest) := by
  rw [stringLiteral, stringRest_body h]

theorem rawStringLiteral_body (front : List Char) (h : RawBody n w) (rest : List Char) :
    rawStringLiteral front
        (List.replicate n '#' ++ '"' :: (w ++ '"' :: (List.replicate n '#' ++ rest))) =
      .ok ([token .literal (front ++ List.replicate n '#' ++
        '"' :: (w ++ '"' :: List.replicate n '#'))], rest) := by
  have hhashes : ∀ x ∈ List.replicate n '#', (x == '#') = true := by
    intro x hx
    rw [List.eq_of_mem_replicate hx]
    rfl
  rw [rawStringLiteral, List.takeWhile_append_of_pos hhashes, List.dropWhile_append_of_pos hhashes]
  simp [rawStringRest_body h]

/-- What a string may have in front of its quote. -/
def stringFronts : List (List Char) := [[], ['b'], ['c']]

/-- What a raw string has in front of its hashes. -/
def rawFronts : List (List Char) := [['r'], ['b', 'r'], ['c', 'r']]

theorem next_string {front : List Char} (hfront : front ∈ stringFronts) :
    ∃ c cs, c ≠ '#' ∧ front ++ ['"'] = c :: cs ∧
      ∀ body, next c (cs ++ body) = stringLiteral front body := by
  have hquote : isBlank '"' = false := by decide
  have hb : isBlank 'b' = false ∧ isNameStart 'b' = true := by decide
  have hc : isBlank 'c' = false ∧ isNameStart 'c' = true := by decide
  simp only [stringFronts, List.mem_cons, List.not_mem_nil, or_false] at hfront
  rcases hfront with rfl | rfl | rfl
  · refine ⟨'"', [], by decide, rfl, fun body => ?_⟩
    simp [next, hquote]
  · refine ⟨'b', ['"'], by decide, rfl, fun body => ?_⟩
    simp [next, word, hb]
  · refine ⟨'c', ['"'], by decide, rfl, fun body => ?_⟩
    simp [next, word, hc]

theorem opensRawString_hashes (n : Nat) (body : List Char) :
    opensRawString (List.replicate n '#' ++ '"' :: body) = true := by
  match n with
  | 0 => rfl
  | 1 => rfl
  | _ + 2 => rfl

theorem exists_cons_hashes (n : Nat) (body : List Char) :
    ∃ d ds, (d = '"' ∨ d = '#') ∧ List.replicate n '#' ++ '"' :: body = d :: ds := by
  cases n with
  | zero => exact ⟨'"', body, .inl rfl, rfl⟩
  | succ n => exact ⟨'#', List.replicate n '#' ++ '"' :: body, .inr rfl, rfl⟩

theorem next_rawString {front : List Char} (hfront : front ∈ rawFronts) (n : Nat) :
    ∃ c cs, c ≠ '#' ∧ front = c :: cs ∧ ∀ body,
      next c (cs ++ (List.replicate n '#' ++ '"' :: body)) =
        rawStringLiteral front (List.replicate n '#' ++ '"' :: body) := by
  have hr : isBlank 'r' = false ∧ isNameStart 'r' = true := by decide
  have hb : isBlank 'b' = false ∧ isNameStart 'b' = true := by decide
  have hc : isBlank 'c' = false ∧ isNameStart 'c' = true := by decide
  simp only [rawFronts, List.mem_cons, List.not_mem_nil, or_false] at hfront
  rcases hfront with rfl | rfl | rfl
  · refine ⟨'r', [], by decide, rfl, fun body => ?_⟩
    simp [next, word, hr, opensRawString_hashes]
  · refine ⟨'b', ['r'], by decide, rfl, fun body => ?_⟩
    obtain ⟨d, ds, hd, htext⟩ := exists_cons_hashes n body
    simp [next, word, hb, htext, hd]
  · refine ⟨'c', ['r'], by decide, rfl, fun body => ?_⟩
    obtain ⟨d, ds, hd, htext⟩ := exists_cons_hashes n body
    simp [next, word, hc, htext, hd]

theorem next_comment (h : CommentText w) (rest : List Char) :
    next '/' ('*' :: (w ++ '*' :: '/' :: rest)) =
      .ok ([filler .blockComment ('/' :: '*' :: (w ++ ['*', '/']))], rest) := by
  have hblank : isBlank '/' = false := by decide
  have hbody : commentRest 1 (w ++ '*' :: '/' :: rest) = some (w ++ ['*', '/'], rest) := by
    have hsplit : w ++ '*' :: '/' :: rest = w ++ ['*', '/'] ++ rest := by simp
    rw [hsplit, commentRest_body h.commentBody 0 rest, commentRest]
    simp [onto]
  simp [next, hblank, hbody]

end Piece

/-! ### Texts that are taken whole -/

/-- Wherever the text stands and whatever follows it, the lexer makes these tokens of it, given the
line it starts on, and goes on behind it.  None of them is a bracket. -/
structure Whole (cs : List Char) (tokens : Nat → List Token) : Prop where
  lexesTo : ∀ line rest, LexesTo line cs (tokens line) (line + cs.count '\n') rest
  isInner : ∀ line, ∀ t ∈ tokens line, t.IsInner
  lex_eq : lex (String.ofList cs) = .ok (tokens 1)
  tokenize_eq : tokenize (String.ofList cs) = .ok (tokens 1)

/-- The text is one literal. -/
def IsLiteral (cs : List Char) : Prop :=
  Whole cs fun line => [⟨.literal, String.ofList cs, line⟩]

/-- A text that is one piece is taken whole. -/
theorem Whole.of_next {p : Piece} (hhash : c ≠ '#') (htext : p.text = c :: cs)
    (hp : ∀ line, ∀ t ∈ tokensFrom line [p], t.IsInner)
    (hnext : ∀ rest, next c (cs ++ rest) = .ok ([p], rest)) :
    Whole (c :: cs) fun line => tokensFrom line [p] := by
  have hbreaks : breaksAll [p] = (c :: cs).count '\n' := by
    rw [breaksAll, cover_cons, cover_nil, List.append_nil, htext]
  have hto : ∀ line rest,
      LexesTo line (c :: cs) (tokensFrom line [p]) (line + (c :: cs).count '\n') rest := by
    intro line rest
    rw [LexesTo, List.cons_append, ← hbreaks]
    exact lexFrom_of_next (hnext rest) line
  have hlex : lex (String.ofList (c :: cs)) = .ok (tokensFrom 1 [p]) := by
    have hbehind : behindShebang (c :: cs) = c :: cs := by
      simp [behindShebang, List.isPrefixOf, Ne.symm hhash]
    rw [lex_eq_lexFrom, String.toList_ofList, hbehind]
    exact (hto 1 []).lexFrom_eq
  have hbalanced : Balanced (tokensFrom 1 [p]) := by
    cases p with
    | filler kind text => exact .nil
    | token kind text => exact .singleton (hp 1 _ (by simp [tokensFrom]))
  exact ⟨hto, hp, hlex, hbalanced.tokenize_eq hlex⟩

theorem IsLiteral.of_next (hhash : c ≠ '#')
    (hnext : ∀ rest, next c (cs ++ rest) = .ok ([token .literal (c :: cs)], rest)) :
    IsLiteral (c :: cs) := by
  refine Whole.of_next hhash rfl ?_ hnext
  intro line t ht
  obtain rfl : t = ⟨.literal, String.ofList (c :: cs), line⟩ := by simpa [tokensFrom] using ht
  exact Token.isInner_of_kind_ne (by simp)

theorem isLiteral_string {front : List Char} (hfront : front ∈ stringFronts) (h : StringBody w) :
    IsLiteral (front ++ '"' :: (w ++ ['"'])) := by
  obtain ⟨c, cs, hhash, hcs, hnext⟩ := next_string hfront
  have htext : front ++ '"' :: (w ++ ['"']) = c :: (cs ++ (w ++ ['"'])) := by
    rw [List.append_cons, hcs, List.cons_append]
  rw [htext]
  refine .of_next hhash fun rest => ?_
  have hrest : cs ++ (w ++ ['"']) ++ rest = cs ++ (w ++ '"' :: rest) := by simp
  rw [hrest, hnext, stringLiteral_body front h rest, htext]

theorem isLiteral_rawString {front : List Char} (hfront : front ∈ rawFronts) (h : RawBody n w) :
    IsLiteral (front ++ List.replicate n '#' ++ '"' :: (w ++ '"' :: List.replicate n '#')) := by
  obtain ⟨c, cs, hhash, hcs, hnext⟩ := next_rawString hfront n
  have htext : front ++ List.replicate n '#' ++ '"' :: (w ++ '"' :: List.replicate n '#') =
      c :: (cs ++ (List.replicate n '#' ++ '"' :: (w ++ '"' :: List.replicate n '#'))) := by
    rw [hcs]
    simp
  rw [htext]
  refine .of_next hhash fun rest => ?_
  have hrest : cs ++ (List.replicate n '#' ++ '"' :: (w ++ '"' :: List.replicate n '#')) ++ rest =
      cs ++ (List.replicate n '#' ++ '"' :: (w ++ '"' :: (List.replicate n '#' ++ rest))) := by
    simp
  rw [hrest, hnext, rawStringLiteral_body front h rest, htext]

theorem whole_comment (h : CommentText w) :
    Whole ('/' :: '*' :: (w ++ ['*', '/'])) fun _ => [] := by
  refine Whole.of_next (p := filler .blockComment ('/' :: '*' :: (w ++ ['*', '/']))) (by decide) rfl
    (by simp [tokensFrom]) fun rest => ?_
  have hrest : '*' :: (w ++ ['*', '/']) ++ rest = '*' :: (w ++ '*' :: '/' :: rest) := by simp
  rw [hrest, next_comment h]

/-- **Literals and comments are taken whole.**  A string is one literal, whatever stands between its
quotes, and so is a raw string; of a block comment nothing is left, whatever comments are in it. -/
theorem literals_and_comments_whole :
    (∀ front ∈ stringFronts, ∀ w, StringBody w → IsLiteral (front ++ '"' :: (w ++ ['"']))) ∧
    (∀ front ∈ rawFronts, ∀ n w, RawBody n w →
      IsLiteral (front ++ List.replicate n '#' ++ '"' :: (w ++ '"' :: List.replicate n '#'))) ∧
    ∀ w, CommentText w → Whole ('/' :: '*' :: (w ++ ['*', '/'])) fun _ => [] :=
  ⟨fun _ hfront _ h => isLiteral_string hfront h,
    fun _ hfront _ _ h => isLiteral_rawString hfront h, fun _ h => whole_comment h⟩

/-- An escaped quote, marks of a comment, a brace and an escaped backslash at the end. -/
def escapedMarks : List Char := ['\\', '"', '/', '*', '\x7b', '\\', '\\']

/-- Quotes with fewer hashes behind them than two, the last one at the end. -/
def quotedHashes : List Char := ['"', '#', ')', '"']

/-- A quote, and a comment with a bracket in it. -/
def nestedComment : List Char := ['"', '/', '*', '(', '*', '/', '\'']

theorem literals_and_comments_whole_marks :
    (['b'] ∈ stringFronts ∧ StringBody escapedMarks ∧
      IsLiteral (['b'] ++ '"' :: (escapedMarks ++ ['"']))) ∧
    (['b', 'r'] ∈ rawFronts ∧ RawBody 2 quotedHashes ∧
      IsLiteral (['b', 'r'] ++ List.replicate 2 '#' ++
        '"' :: (quotedHashes ++ '"' :: List.replicate 2 '#'))) ∧
    CommentText nestedComment ∧
    Whole ('/' :: '*' :: (nestedComment ++ ['*', '/'])) fun _ => [] := by
  have hstring : StringBody escapedMarks :=
    .escape (.char (by decide) (by decide) (.char (by decide) (by decide)
      (.char (by decide) (by decide) (.escape .nil))))
  have hraw : RawBody 2 quotedHashes := by decide
  have hbracket : CommentText ['('] := .char (by decide) (by decide) .nil
  have hcomment : CommentText nestedComment :=
    .char (by decide) (by decide) (.comment hbracket (.char (by decide) (by decide) .nil))
  obtain ⟨hstrings, hraws, hcomments⟩ := literals_and_comments_whole
  exact ⟨⟨by decide, hstring, hstrings _ (by decide) _ hstring⟩,
    ⟨by decide, hraw, hraws _ (by decide) 2 _ hraw⟩, hcomment, hcomments _ hcomment⟩

end ConversionClosure
