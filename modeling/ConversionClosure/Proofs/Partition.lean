/-
Texts cut into pieces.

A text is the pieces that the lexer cuts it into, one behind the other.  Those that are tokens are
its tokens, and each of them stands on the line that the line ends before it lead to.  The others
are left out, and of these there are just five kinds, told here by their shape and by what stands
next to them.

The lexer tells a comment by counting how many are open.  `CommentBody` tells it by nesting.
-/
import ConversionClosure.Proofs.Lookahead
import Mathlib.Control.Monad.Basic

namespace ConversionClosure

open Text

/-- What stands behind the two characters that open a block comment, up to those that close it.
Comments inside of it are whole, and no other two characters open or close one. -/
inductive CommentBody : List Char → Prop
  | close : CommentBody ['*', '/']
  | nested {inner rest : List Char} (hinner : CommentBody inner) (h : CommentBody rest) :
      CommentBody ('/' :: '*' :: (inner ++ rest))
  | char {c : Char} {rest : List Char} (hopen : c = '/' → rest.head? ≠ some '*')
      (hclose : c = '*' → rest.head? ≠ some '/') (h : CommentBody rest) : CommentBody (c :: rest)

theorem CommentBody.exists_cons {body : List Char} (h : CommentBody body) :
    ∃ c rest, body = c :: rest := by
  cases h with
  | close => exact ⟨_, _, rfl⟩
  | nested _ _ => exact ⟨_, _, rfl⟩
  | char _ _ _ => exact ⟨_, _, rfl⟩

namespace Piece

variable {c : Char} {cs rest : List Char} {ps qs : List Piece} {line : Nat}

/-! ### The shape of what is left out -/

/-- The pieces are at the end of the text or begin with the end of a line. -/
def EndsLine (ps : List Piece) : Prop := ∀ c ∈ (cover ps).head?, c = '\n'

/-- The text is of the kind of a filler, between the pieces before it and those after it. -/
def IsFiller (before : List Piece) (text : List Char) (after : List Piece) : Filler → Prop
  | .blank => ∃ c, text = [c] ∧ isBlank c = true
  | .lineComment => (∃ body, text = '/' :: '/' :: body ∧ '\n' ∉ body) ∧ EndsLine after
  | .blockComment => ∃ body, text = '/' :: '*' :: body ∧ CommentBody body
  | .shebang => before = [] ∧
      (∃ body, text = '#' :: '!' :: body ∧ body.head? ≠ some '[' ∧ '\n' ∉ body) ∧ EndsLine after
  | .rawMark => text = ['r', '#'] ∧ ∃ name more, after = token .ident name :: more

/-- The kind and the text of a piece that is a token. -/
def token? : Piece → Option (TokenKind × List Char)
  | filler _ _ => none
  | token kind cs => some (kind, cs)

/-- The pieces are the text, the tokens are the pieces that are no fillers, each on its line, and
every filler is of its kind. -/
structure Partitions (text : List Char) (ts : List Token) (ps : List Piece) : Prop where
  cover_eq : cover ps = text
  text_ne_nil : ∀ p ∈ ps, p.text ≠ []
  tokens_eq : ts.map (fun t => (t.kind, t.text.toList)) = ps.filterMap token?
  /-- A token has the place among the tokens that its piece has among the pieces. -/
  line_eq : ∀ before kind cs after, ps = before ++ token kind cs :: after →
    ts[(before.filterMap token?).length]? =
      some ⟨kind, String.ofList cs, 1 + (cover before).count '\n'⟩
  isFiller : ∀ before kind cs after, ps = before ++ filler kind cs :: after →
    IsFiller before cs after kind

/-! ### Comments -/

/-- The end of several comments, one inside the other, is the body of each of them. -/
theorem exists_bodies_of_commentRest {depth : Nat} {split : List Char × List Char}
    (h : commentRest depth cs = some split) : ∃ bodies : List (List Char),
      bodies.length = depth ∧ split.1 = bodies.flatten ∧ ∀ body ∈ bodies, CommentBody body := by
  fun_induction commentRest depth cs generalizing split with
  | case1 =>
      cases h
      exact ⟨[], rfl, rfl, by simp⟩
  | case2 => cases h
  | case3 depth cs ih =>
      obtain ⟨split, hsplit, rfl⟩ := Option.map_eq_some_iff.mp h
      obtain ⟨bodies, hlength, hflatten, hbodies⟩ := ih hsplit
      obtain ⟨inner, body, bodies, rfl⟩ : ∃ inner body more, bodies = inner :: body :: more := by
        rcases bodies with _ | ⟨inner, _ | ⟨body, more⟩⟩
        · simp at hlength
        · simp at hlength
        · exact ⟨inner, body, more, rfl⟩
      simp only [List.forall_mem_cons] at hbodies
      refine ⟨('/' :: '*' :: (inner ++ body)) :: bodies, by simpa using hlength, ?_, ?_⟩
      · simp [onto, hflatten]
      · exact List.forall_mem_cons.mpr ⟨.nested hbodies.1 hbodies.2.1, hbodies.2.2⟩
  | case4 depth cs ih =>
      obtain ⟨split, hsplit, rfl⟩ := Option.map_eq_some_iff.mp h
      obtain ⟨bodies, hlength, hflatten, hbodies⟩ := ih hsplit
      refine ⟨['*', '/'] :: bodies, by simpa using hlength, ?_, ?_⟩
      · simp [onto, hflatten]
      · exact List.forall_mem_cons.mpr ⟨.close, hbodies⟩
  | case5 depth c cs hopen hclose ih =>
      obtain ⟨split, hsplit, rfl⟩ := Option.map_eq_some_iff.mp h
      obtain ⟨bodies, hlength, hflatten, hbodies⟩ := ih hsplit
      obtain ⟨body, bodies, rfl⟩ : ∃ body more, bodies = body :: more :=
        List.exists_cons_of_length_eq_add_one hlength
      obtain ⟨hbody, hrest⟩ := List.forall_mem_cons.mp hbodies
      -- the character behind this one is the first one of the body
      obtain ⟨d, more, rfl⟩ := hbody.exists_cons
      have hcs : ∃ ds, cs = d :: ds := by
        rw [← commentRest_append hsplit, hflatten]
        exact ⟨_, rfl⟩
      obtain ⟨ds, rfl⟩ := hcs
      have hchar : CommentBody (c :: d :: more) := by
        refine .char ?_ ?_ hbody
        · rintro rfl hd
          exact hopen ds rfl (by rw [Option.some.inj hd])
        · rintro rfl hd
          exact hclose ds rfl (by rw [Option.some.inj hd])
      refine ⟨(c :: d :: more) :: bodies, by simpa using hlength, ?_, ?_⟩
      · simp [onto, hflatten]
      · exact List.forall_mem_cons.mpr ⟨hchar, hrest⟩

/-- What the lexer takes as a block comment is one. -/
theorem commentBody_of_commentRest {body : List Char} (h : commentRest 1 cs = some (body, rest)) :
    CommentBody body := by
  obtain ⟨bodies, hlength, hflatten, hbodies⟩ := exists_bodies_of_commentRest h
  obtain ⟨only, rfl⟩ := List.length_eq_one_iff.mp hlength
  have hbody : body = only := by simpa using hflatten
  exact hbody ▸ hbodies only (by simp)

/-! ### Each piece of a text -/

/-- Every filler of the pieces is of its kind, and none of them is a shebang. -/
def FillersFit : List Piece → Prop
  | [] => True
  | filler kind cs :: ps => (∀ before, IsFiller before cs ps kind) ∧ FillersFit ps
  | token _ _ :: ps => FillersFit ps

theorem fillersFit_append_of_tokens (h : ∀ p ∈ qs, p.token?.isSome) (hps : FillersFit ps) :
    FillersFit (qs ++ ps) := by
  induction qs with
  | nil => exact hps
  | cons q qs ih =>
      obtain ⟨hq, hqs⟩ := List.forall_mem_cons.mp h
      cases q with
      | filler kind cs => simp [token?] at hq
      | token kind cs => exact ih hqs

theorem FillersFit.isFiller {before after : List Piece} {kind : Filler}
    (h : FillersFit (before ++ filler kind cs :: after)) (front : List Piece) :
    IsFiller front cs after kind := by
  induction before with
  | nil => exact h.1 front
  | cons p before ih =>
      cases p with
      | filler _ _ => exact ih h.2
      | token _ _ => exact ih h

theorem endsLine_of_dropWhile (h : cover ps = cs.dropWhile (· != '\n')) : EndsLine ps := by
  intro c hc
  have hhead := List.head?_dropWhile_not (· != '\n') cs
  rw [← h, Option.mem_def.mp hc] at hhead
  simpa using hhead

theorem stringLiteral_tokens {front : List Char} (h : stringLiteral front cs = .ok (qs, rest)) :
    ∀ q ∈ qs, q.token?.isSome := by
  unfold stringLiteral at h
  split at h
  · cases h
    simp [token?]
  · cases h

theorem rawStringLiteral_tokens {front : List Char}
    (h : rawStringLiteral front cs = .ok (qs, rest)) : ∀ q ∈ qs, q.token?.isSome := by
  simp only [rawStringLiteral] at h
  split at h
  · split at h
    · cases h
      simp [token?]
    · cases h
  · cases h

theorem quote_tokens (h : quote cs = .ok (qs, rest)) : ∀ q ∈ qs, q.token?.isSome := by
  obtain ⟨⟨kind, text, after⟩, -, hsplit⟩ := exists_of_map_eq_ok h
  cases hsplit
  simp [token?]

theorem byteLiteral_tokens (h : byteLiteral cs = .ok (qs, rest)) : ∀ q ∈ qs, q.token?.isSome := by
  obtain ⟨⟨kind, text, after⟩, -, hsplit⟩ := exists_of_map_eq_ok h
  cases hsplit
  simp [token?]

theorem mark_tokens (c : Char) (cs : List Char) : ∀ q ∈ (mark c cs).1, q.token?.isSome := by
  cases cs with
  | nil => simp [mark, token?]
  | cons d cs =>
      rw [mark]
      split
      · simp [token?]
      · simp [token?]

theorem word_fillersFit (h : word c cs = .ok (qs, rest)) (hps : FillersFit ps) :
    FillersFit (qs ++ ps) := by
  simp only [word, Bool.and_eq_true] at h
  split at h
  · exact fillersFit_append_of_tokens (stringLiteral_tokens h) hps
  split at h
  · exact fillersFit_append_of_tokens (byteLiteral_tokens h) hps
  split at h
  · exact fillersFit_append_of_tokens (rawStringLiteral_tokens h) hps
  split at h
  · exact fillersFit_append_of_tokens (rawStringLiteral_tokens h) hps
  split at h
  · cases h
    exact ⟨fun _ => ⟨rfl, _, _, rfl⟩, hps⟩
  · cases h
    exact hps

/-- What the lexer takes in one step is cut well, in front of the pieces of the rest. -/
theorem next_fillersFit (h : next c cs = .ok (qs, rest)) (hcover : cover ps = rest)
    (hps : FillersFit ps) : FillersFit (qs ++ ps) := by
  simp only [next] at h
  split at h
  · rename_i hblank
    cases h
    exact ⟨fun _ => ⟨c, rfl, hblank⟩, hps⟩
  split at h
  · rename_i hcomment
    rw [Bool.and_eq_true] at hcomment
    cases h
    refine ⟨fun _ => ⟨⟨cs.tail.takeWhile (· != '\n'), ?_, not_mem_takeWhile_ne _ _⟩,
      endsLine_of_dropWhile hcover⟩, hps⟩
    rw [eq_cons_of_head? hcomment.2, eq_of_beq hcomment.1]
    rfl
  split at h
  · split at h
    · rename_i body after hrest
      cases h
      exact ⟨fun _ => ⟨body, rfl, commentBody_of_commentRest hrest⟩, hps⟩
    · cases h
  split at h
  · exact fillersFit_append_of_tokens (stringLiteral_tokens h) hps
  split at h
  · exact fillersFit_append_of_tokens (quote_tokens h) hps
  split at h
  · exact word_fillersFit h hps
  split at h
  · cases h
    exact hps
  · obtain rfl : (mark c cs).1 = qs := congrArg Prod.fst (Except.ok.inj h)
    exact fillersFit_append_of_tokens (mark_tokens c cs) hps

/-- Nothing of a text is lost in its pieces, none of them is empty, and what is left out is of its
kind. -/
theorem cover_piecesFrom (h : piecesFrom line cs = .ok ps) :
    cover ps = cs ∧ (∀ p ∈ ps, p.text ≠ []) ∧ FillersFit ps := by
  obtain ⟨n, hn⟩ : ∃ n, cs.length = n := ⟨_, rfl⟩
  induction n using Nat.strongRecOn generalizing line cs ps with
  | ind n ih =>
      rw [piecesFrom.eq_def] at h
      split at h
      · cases h
        simp [FillersFit]
      · split at h
        · cases h
        · rename_i qs rest hnext
          obtain ⟨ps', hps', rfl⟩ := exists_of_map_eq_ok h
          obtain ⟨hcover, hne, hfit⟩ := ih _ (hn ▸ length_lt_of_next hnext) hps' rfl
          have hsplits := next_splits hnext
          refine ⟨by rw [cover_append, hcover, hsplits.cover_append], fun p hp => ?_,
            next_fillersFit hnext hcover hfit⟩
          exact (List.mem_append.mp hp).elim (hsplits.text_ne_nil p) (hne p)

/-! ### The tokens among the pieces -/

theorem map_tokensFrom (line : Nat) (ps : List Piece) :
    (tokensFrom line ps).map (fun t => (t.kind, t.text.toList)) = ps.filterMap token? := by
  induction ps generalizing line with
  | nil => rfl
  | cons p ps ih =>
      cases p with
      | filler kind cs => exact ih _
      | token kind cs => simp [tokensFrom, token?, ih]

/-- The token of a piece stands on the line that the line ends before it lead to. -/
theorem getElem?_tokensFrom (line : Nat) (before after : List Piece) (kind : TokenKind)
    (cs : List Char) :
    (tokensFrom line (before ++ token kind cs :: after))[(before.filterMap token?).length]? =
      some ⟨kind, String.ofList cs, line + breaksAll before⟩ := by
  have hlength : (tokensFrom line before).length = (before.filterMap token?).length := by
    rw [← map_tokensFrom line, List.length_map]
  rw [tokensFrom_append, ← hlength, List.getElem?_append_right (Nat.le_refl _), Nat.sub_self]
  rfl

/-! ### Whole texts -/

/-- The first line of a text that starts with a hash and an exclamation mark, and with no bracket
behind these, is a shebang. -/
theorem isFiller_shebang (hstart : ['#', '!'].isPrefixOf cs = true)
    (hbracket : ['#', '!', '['].isPrefixOf cs = false) (h : cover ps = cs.dropWhile (· != '\n')) :
    IsFiller [] (cs.takeWhile (· != '\n')) ps .shebang := by
  obtain ⟨body, rfl⟩ := List.isPrefixOf_iff_prefix.mp hstart
  refine ⟨rfl, ⟨body.takeWhile (· != '\n'), rfl, ?_, not_mem_takeWhile_ne _ _⟩,
    endsLine_of_dropWhile h⟩
  intro hhead
  cases body with
  | nil => simp at hhead
  | cons c body =>
      rw [List.takeWhile_cons] at hhead
      split at hhead
      · obtain rfl : c = '[' := Option.some.inj hhead
        simp [List.isPrefixOf] at hbracket
      · cases hhead

theorem partitions_of_pieces (h : pieces cs = .ok ps) : Partitions cs (tokensFrom 1 ps) ps := by
  have hline : ∀ before kind text after, ps = before ++ token kind text :: after →
      (tokensFrom 1 ps)[(before.filterMap token?).length]? =
        some ⟨kind, String.ofList text, 1 + (cover before).count '\n'⟩ :=
    fun before kind text after hps => hps ▸ getElem?_tokensFrom 1 before after kind text
  unfold pieces at h
  split at h
  · rename_i hstart
    rw [Bool.and_eq_true, Bool.not_eq_true'] at hstart
    obtain ⟨ps', hps', rfl⟩ := exists_of_map_eq_ok h
    obtain ⟨hcover, hne, hfit⟩ := cover_piecesFrom hps'
    have hfirst := isFiller_shebang hstart.1 hstart.2 hcover
    refine ⟨?_, List.forall_mem_cons.mpr ⟨?_, hne⟩, map_tokensFrom 1 _, hline, ?_⟩
    · rw [cover_cons, hcover]
      exact List.takeWhile_append_dropWhile
    · obtain ⟨-, ⟨body, hbody, -⟩, -⟩ := hfirst
      rw [text_filler, hbody]
      simp
    · intro before kind text after hps
      cases before with
      | nil =>
          obtain ⟨hfiller, rfl⟩ := List.cons.inj hps
          obtain ⟨rfl, rfl⟩ := Piece.filler.inj hfiller
          exact hfirst
      | cons p before =>
          obtain ⟨-, rfl⟩ := List.cons.inj hps
          exact hfit.isFiller _
  · obtain ⟨hcover, hne, hfit⟩ := cover_piecesFrom h
    exact ⟨hcover, hne, map_tokensFrom 1 ps, hline,
      fun before kind text after hps => FillersFit.isFiller (hps ▸ hfit) before⟩

/-- **Lexing partitions the text**: it is the concatenation of pieces, none of them empty.  Some of
these are the tokens, in their order, each with its text and its line.  The others are blanks, whole
comments, the shebang, and marks of raw names. -/
theorem partitions_of_lex {text : String} {ts : List Token} (h : lex text = .ok ts) :
    ∃ ps, Partitions text.toList ts ps := by
  obtain ⟨ps, hps, rfl⟩ := exists_of_map_eq_ok h
  exact ⟨ps, partitions_of_pieces hps⟩

/-- A text with a piece of every kind: a shebang, a comment with one inside of it, a raw name, a
literal over two lines, a lifetime, marks and a comment at the end. -/
def manyPieces : String := "#!x\n/*/* */*/r#fn b\"\n\"'a::1//"

theorem partitions_of_lex_manyPieces :
    lex manyPieces = .ok [⟨.ident, "fn", 2⟩, ⟨.literal, "b\"\n\"", 2⟩, ⟨.lifetime, "'a", 3⟩,
      ⟨.punct, "::", 3⟩, ⟨.literal, "1", 3⟩] ∧
    ∃ ps, Partitions manyPieces.toList [⟨.ident, "fn", 2⟩, ⟨.literal, "b\"\n\"", 2⟩,
      ⟨.lifetime, "'a", 3⟩, ⟨.punct, "::", 3⟩, ⟨.literal, "1", 3⟩] ps := by
  have hlex : lex manyPieces = .ok [⟨.ident, "fn", 2⟩, ⟨.literal, "b\"\n\"", 2⟩,
      ⟨.lifetime, "'a", 3⟩, ⟨.punct, "::", 3⟩, ⟨.literal, "1", 3⟩] := by decide +kernel
  exact ⟨hlex, partitions_of_lex hlex⟩

end Piece

end ConversionClosure
