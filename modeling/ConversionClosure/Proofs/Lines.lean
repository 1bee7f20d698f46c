/-
Texts put together at the end of a line.

A text that lexes by itself has an end for everything that it opens, and the end of its last line is
a stop (`next_append_stop`).  So it lexes the same way in front of further lines, and those are
lexed as if they stood by themselves, only further down.

The first line of a text may be a shebang, which no later line is.  That is why the further lines
must not start like one.
-/
import ConversionClosure.Proofs.Lookahead
import Mathlib.Control.Monad.Basic

namespace ConversionClosure

open Piece Text

variable {line count : Nat} {cs more : List Char} {ps : List Piece} {ts : List Token} {a b : String}

/-! ### Line numbers -/

/-- What is made of a text that stands some lines further down. -/
def shiftLines (count : Nat) : Except LexFault (List Token) → Except LexFault (List Token)
  | .ok ts => .ok (ts.map (Token.shift count))
  | .error fault => .error (fault.shift count)

theorem tokensFrom_add (line count : Nat) (ps : List Piece) :
    tokensFrom (line + count) ps = (tokensFrom line ps).map (Token.shift count) := by
  induction ps generalizing line with
  | nil => rfl
  | cons p ps ih =>
      cases p with
      | filler kind cs => rw [tokensFrom, tokensFrom, ← ih, Nat.add_right_comm]
      | token kind cs =>
          rw [tokensFrom, tokensFrom, List.map_cons, ← ih, Nat.add_right_comm]
          rfl

/-- The lexer counts lines from the one on which a text starts. -/
theorem lexFrom_add (line count : Nat) (cs : List Char) :
    lexFrom (line + count) cs = shiftLines count (lexFrom line cs) := by
  obtain ⟨n, hn⟩ : ∃ n, cs.length = n := ⟨_, rfl⟩
  induction n using Nat.strongRecOn generalizing line cs with
  | ind n ih =>
      cases cs with
      | nil => simp [shiftLines]
      | cons c cs =>
          cases hnext : next c cs with
          | error cause =>
              have hfault : ∀ line, lexFrom line (c :: cs) = .error ⟨cause, line⟩ := by
                intro line
                rw [lexFrom, piecesFrom.eq_def]
                simp only
                split
                · rename_i cause' h
                  rw [hnext] at h
                  obtain rfl := Except.error.inj h
                  rfl
                · rename_i h
                  rw [hnext] at h
                  cases h
              rw [hfault, hfault]
              rfl
          | ok split =>
              obtain ⟨ps, rest⟩ := split
              have hrest := ih _ (hn ▸ length_lt_of_next hnext) (line + breaksAll ps) rest rfl
              rw [lexFrom_of_next hnext, lexFrom_of_next hnext, Nat.add_right_comm, hrest]
              cases lexFrom (line + breaksAll ps) rest with
              | error fault => rfl
              | ok us => simp [Except.map, shiftLines, tokensFrom_add]

/-! ### In front of the end of a line -/

/-- A text that lexes by itself is lexed that way in front of the end of a line. -/
theorem lexesTo_newline (h : lexFrom line cs = .ok ts) (more : List Char) :
    LexesTo line cs ts (line + cs.count '\n') ('\n' :: more) := by
  obtain ⟨n, hn⟩ : ∃ n, cs.length = n := ⟨_, rfl⟩
  induction n using Nat.strongRecOn generalizing line cs ts with
  | ind n ih =>
      cases cs with
      | nil =>
          rw [lexFrom_nil] at h
          cases h
          exact Lexes.nil.lexesTo
      | cons c cs =>
          obtain ⟨ps, hps, rfl⟩ := exists_of_map_eq_ok h
          rw [piecesFrom.eq_def] at hps
          simp only at hps
          split at hps
          · cases hps
          · rename_i qs rest hnext
            obtain ⟨ps', hps', rfl⟩ := exists_of_map_eq_ok hps
            have hrest : lexFrom (line + breaksAll qs) rest =
                .ok (tokensFrom (line + breaksAll qs) ps') := by rw [lexFrom, hps']; rfl
            have hih := ih _ (hn ▸ length_lt_of_next hnext) hrest rfl
            have hcount : (c :: cs).count '\n' = breaksAll qs + rest.count '\n' := by
              rw [← (next_splits hnext).cover_append, List.count_append, breaksAll]
            rw [LexesTo] at hih ⊢
            rw [List.cons_append,
              lexFrom_of_next (next_append_stop (by decide) hnext (.inl rfl) more), hih, hcount,
              tokensFrom_append, ← Nat.add_assoc]
            cases lexFrom (line + breaksAll qs + rest.count '\n') ('\n' :: more) with
            | error fault => rfl
            | ok us => simp [Except.map]

/-- The end of a line leaves no token. -/
theorem lexesTo_lineEnd : LexesTo line ['\n'] [] (line + 1) more :=
  lexFrom_of_next (next_blank (by decide)) line

/-! ### The shebang -/

/-- The text without its shebang, if it has one. -/
def behindShebang (cs : List Char) : List Char :=
  if ['#', '!'].isPrefixOf cs && !(['#', '!', '['].isPrefixOf cs) then cs.dropWhile (· != '\n')
  else cs

theorem lex_eq_lexFrom (text : String) : lex text = lexFrom 1 (behindShebang text.toList) := by
  rw [lex, pieces, behindShebang]
  split
  · have hline : (filler .shebang (text.toList.takeWhile (· != '\n'))).breaks = 0 :=
      List.count_eq_zero.mpr (not_mem_takeWhile_ne _ _)
    rw [lexFrom]
    cases piecesFrom 1 (text.toList.dropWhile (· != '\n')) with
    | error fault => rfl
    | ok ps =>
        show Except.ok (tokensFrom (1 + (filler .shebang _).breaks) ps) = _
        rw [hline]
        rfl
  · rfl

theorem count_behindShebang (cs : List Char) : (behindShebang cs).count '\n' = cs.count '\n' := by
  unfold behindShebang
  split
  · conv => rhs; rw [← List.takeWhile_append_dropWhile (p := (· != '\n')) (l := cs)]
    rw [List.count_append, List.count_eq_zero.mpr (not_mem_takeWhile_ne _ _), Nat.zero_add]
  · rfl

/-- A text has the shebang of its first line. -/
theorem behindShebang_append (cs more : List Char) :
    behindShebang (cs ++ '\n' :: more) = behindShebang cs ++ '\n' :: more := by
  unfold behindShebang
  rw [isPrefixOf_append_stop (by decide), isPrefixOf_append_stop (by decide)]
  split
  · exact dropWhile_append_stop (by decide) cs more
  · rfl

/-! ### Two texts -/

/-- **Lexing is compositional at the ends of lines**: behind a text that lexes by itself, further
lines give the tokens, or the fault, that they give by themselves, on lines that are further down by
those of the text. -/
theorem lex_append_newline (ha : lex a = .ok ts)
    (hb : ['#', '!'].isPrefixOf b.toList = true → ['#', '!', '['].isPrefixOf b.toList = true) :
    lex (a ++ "\n" ++ b) =
      match lex b with
      | .ok us => .ok (ts ++ us.map (Token.shift (1 + a.toList.count '\n')))
      | .error fault => .error (fault.shift (1 + a.toList.count '\n')) := by
  have hbehind : behindShebang b.toList = b.toList := by
    refine if_neg ?_
    rw [Bool.and_eq_true, Bool.not_eq_true', not_and, Bool.not_eq_false]
    exact hb
  rw [lex_eq_lexFrom] at ha
  have hend : LexesTo (1 + (behindShebang a.toList).count '\n') ['\n'] []
      (1 + (behindShebang a.toList).count '\n' + 1) b.toList := lexesTo_lineEnd
  have hfront : LexesTo 1 (behindShebang a.toList ++ ['\n']) (ts ++ [])
      (1 + (behindShebang a.toList).count '\n' + 1) b.toList :=
    (lexesTo_newline ha b.toList).append hend
  have hwhole : (a ++ "\n" ++ b).toList = a.toList ++ '\n' :: b.toList := by simp
  have hcount : 1 + a.toList.count '\n' + 1 = 1 + (1 + a.toList.count '\n') := by omega
  rw [LexesTo, List.append_assoc, List.append_nil, count_behindShebang, hcount, lexFrom_add]
    at hfront
  rw [lex_eq_lexFrom, lex_eq_lexFrom b, hbehind, hwhole, behindShebang_append]
  refine hfront.trans ?_
  cases lexFrom 1 b.toList with
  | error fault => rfl
  | ok us => rfl

/-- A literal that holds the end of a line and a comment that goes to the end of one, in front of a
literal that has no end. -/
theorem lex_append_newline_openString :
    lex "b\"\n\" 'a// \"" = .ok [⟨.literal, "b\"\n\"", 1⟩, ⟨.lifetime, "'a", 2⟩] ∧
      lex "#![x]\n\"" = .error ⟨.openString, 2⟩ ∧
      lex ("b\"\n\" 'a// \"" ++ "\n" ++ "#![x]\n\"") = .error ⟨.openString, 4⟩ := by
  have ha : lex "b\"\n\" 'a// \"" = .ok [⟨.literal, "b\"\n\"", 1⟩, ⟨.lifetime, "'a", 2⟩] := by
    decide +kernel
  have hb : lex "#![x]\n\"" = .error ⟨.openString, 2⟩ := by decide +kernel
  refine ⟨ha, hb, ?_⟩
  rw [lex_append_newline ha (fun _ => by decide), hb]
  rfl

end ConversionClosure
