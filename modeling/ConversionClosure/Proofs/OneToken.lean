/-
Texts that are one token.

A text that the lexer makes one token of, as it stands, is still that token when a closing square
bracket is written behind it: no token goes on with such a bracket, and a literal that has its end
does not look at what follows.  So the length of an array may be any token at all, one that spans
several lines among them.
-/
import ConversionClosure.Proofs.Balance
import ConversionClosure.Proofs.Lookahead
import ConversionClosure.Proofs.Partition

namespace ConversionClosure

open Text

namespace Piece

/-! ### Texts that are one piece -/

theorem length_le_cover {line : Nat} {ps : List Piece} {t : Token} (h : t ∈ tokensFrom line ps) :
    t.text.toList.length ≤ (cover ps).length := by
  induction ps generalizing line with
  | nil => cases h
  | cons p ps ih =>
      rw [cover_cons, List.length_append]
      cases p with
      | filler kind cs =>
          have := ih h
          omega
      | token kind cs =>
          rcases List.mem_cons.mp h with rfl | h
          · simp
          · have := ih h
            omega

/-- A text with one token that is as long as the text is one piece. -/
theorem eq_singleton_of_tokensFrom {line line' : Nat} {ps : List Piece} {kind : TokenKind}
    {text : String} (hne : ∀ p ∈ ps, p.text ≠ []) (hcover : cover ps = text.toList)
    (htokens : tokensFrom line ps = [⟨kind, text, line'⟩]) : ps = [token kind text.toList] := by
  cases ps with
  | nil => cases htokens
  | cons p ps =>
      have hpos : 0 < p.text.length := List.length_pos_iff.mpr (hne p (by simp))
      have hlength := congrArg List.length hcover
      rw [cover_cons, List.length_append] at hlength
      cases p with
      | filler filled cs =>
          have hmem : ⟨kind, text, line'⟩ ∈ tokensFrom (line + (filler filled cs).breaks) ps := by
            rw [tokensFrom] at htokens
            simp [htokens]
          have hle := length_le_cover hmem
          simp only at hle
          omega
      | token k cs =>
          rw [tokensFrom] at htokens
          obtain ⟨rfl, rfl, -⟩ := Token.mk.inj (List.cons.inj htokens).1
          rw [String.toList_ofList] at hcover ⊢
          have hrest : cover ps = [] := by simpa [cover_cons] using hcover
          -- nothing is left for another piece
          cases ps with
          | nil => rfl
          | cons q ps =>
              rw [cover_cons, List.append_eq_nil_iff] at hrest
              exact absurd hrest.1 (hne q (by simp))

end Piece

open Piece Token

variable {text : String}

/-- The text is one token. -/
def OneToken (text : String) : Prop := ∃ kind, tokenize text = .ok [⟨kind, text, 1⟩]

namespace OneToken

theorem isInner_of_groupsFrom {t : Token} {pairs : List (Nat × Nat)}
    (h : groupsFrom 0 [] [t] = .ok pairs) : t.IsInner := by
  unfold groupsFrom at h
  split at h
  · cases h
  · rename_i hopens hcloses
    exact ⟨hopens, hcloses⟩
  · cases h

theorem piecesFrom_eq {kind : TokenKind} (h : lex text = .ok [⟨kind, text, 1⟩]) :
    piecesFrom 1 text.toList = .ok [token kind text.toList] := by
  obtain ⟨ps, hps, htokens⟩ := exists_of_map_eq_ok h
  unfold pieces at hps
  split at hps
  · -- a shebang would be a piece of its own
    rename_i hshebang
    obtain ⟨ps', hps', rfl⟩ := exists_of_map_eq_ok hps
    obtain ⟨hcover, hne, -⟩ := cover_piecesFrom hps'
    have hfirst : (filler .shebang (text.toList.takeWhile (· != '\n'))).text ≠ [] := by
      cases htext : text.toList with
      | nil => simp [htext] at hshebang
      | cons c cs =>
          obtain rfl : c = '#' := by
            rw [htext, Bool.and_eq_true, List.isPrefixOf_iff_prefix, List.cons_prefix_cons]
              at hshebang
            exact hshebang.1.1.symm
          simp
    have hsplit : cover (filler .shebang (text.toList.takeWhile (· != '\n')) :: ps') =
        text.toList := by
      rw [cover_cons, hcover]
      exact List.takeWhile_append_dropWhile
    have heq := eq_singleton_of_tokensFrom (List.forall_mem_cons.mpr ⟨hfirst, hne⟩) hsplit htokens
    exact absurd heq (by simp)
  · obtain ⟨hcover, hne, -⟩ := cover_piecesFrom hps
    rw [hps, eq_singleton_of_tokensFrom hne hcover htokens]

/-- The lexer takes the whole text in one step. -/
theorem next_eq {kind : TokenKind} (h : lex text = .ok [⟨kind, text, 1⟩]) :
    ∃ c cs, text.toList = c :: cs ∧ next c cs = .ok ([token kind (c :: cs)], []) := by
  have hpieces := piecesFrom_eq h
  rw [piecesFrom.eq_def] at hpieces
  split at hpieces
  · cases hpieces
  rename_i c cs htext
  split at hpieces
  · cases hpieces
  rename_i ps rest hnext
  obtain ⟨qs, -, hqs⟩ := exists_of_map_eq_ok hpieces
  have hsplits := next_splits hnext
  obtain ⟨p, ps, rfl⟩ := List.exists_cons_of_ne_nil hsplits.ne_nil
  obtain ⟨rfl, hnil⟩ := List.cons.inj hqs
  obtain ⟨rfl, rfl⟩ := List.append_eq_nil_iff.mp hnil
  have hrest : rest = [] := by simpa [htext] using hsplits.cover_append
  exact ⟨c, cs, htext, by rw [hnext, hrest, htext]⟩

/-- **A text that is one token is lexed in front of a closing bracket as it is by itself**, and the
token is no bracket. -/
theorem lexes (h : OneToken text) : text ≠ "" ∧ ∃ kind, (∀ line, IsInner ⟨kind, text, line⟩) ∧
    ∀ line, ∃ line', ∀ more,
      LexesTo line text.toList [⟨kind, text, line⟩] line' (']' :: more) := by
  obtain ⟨kind, htokenize⟩ := h
  obtain ⟨hlex, pairs, hpairs⟩ := lex_of_tokenize htokenize
  obtain ⟨c, cs, htext, hnext⟩ := next_eq hlex
  have hinner : IsInner ⟨kind, text, 1⟩ := isInner_of_groupsFrom hpairs
  refine ⟨?_, kind, fun _ => hinner, fun line => ⟨line + breaksAll [token kind (c :: cs)], ?_⟩⟩
  · rintro rfl
    simp at htext
  · intro more
    have hone : tokensFrom line [token kind (c :: cs)] = [⟨kind, text, line⟩] := by
      rw [tokensFrom, ← htext, String.ofList_toList]
      rfl
    rw [LexesTo, htext, ← hone]
    exact lexFrom_of_next (next_append_stop (by decide) hnext (.inr (by simp)) more) line

/-- A text whose only token is no mark is one token. -/
theorem of_lexes {kind : TokenKind} (hkind : kind ≠ .punct)
    (h : Lexes 1 text.toList [⟨kind, text, 1⟩] []) : OneToken text := by
  have hpunct : Token.isPunct ⟨kind, text, 1⟩ "#" = false := by simp [Token.isPunct, hkind]
  have hlex : lex text = .ok [⟨kind, text, 1⟩] :=
    lex_of_lexFrom (LexesTo.lexFrom_eq h) (by simpa using hpunct)
  exact ⟨kind, (Balanced.singleton (isInner_of_kind_ne hkind)).tokenize_eq hlex⟩

end OneToken

end ConversionClosure
