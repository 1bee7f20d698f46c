/-
Texts of tokens.

The text of a token fits its kind: a name or a mark does not start with a quote, a lifetime is a
quote and a name, and no text is empty.  Every token that the lexer makes is like that, and all
that is ever done with tokens is to take some of them.
-/
import ConversionClosure.Proofs.Soundness
import ConversionClosure.Token.Run

namespace ConversionClosure

open Text Piece

variable {c : Char} {cs rest : List Char}

/-- The text fits the kind of a token. -/
def TokenKind.Fits (text : String) : TokenKind → Prop
  | .ident | .punct => Opens text
  | .lifetime => isLifetime text = true
  | .literal => text ≠ ""

namespace Token

variable {t : Token} {ts : List Token}

/-- The text of the token fits its kind. -/
def Fits (t : Token) : Prop := t.kind.Fits t.text

/-- The text of every token fits its kind. -/
def AllFit (ts : List Token) : Prop := ∀ t ∈ ts, t.Fits

end Token

namespace Piece

/-- The text of the piece fits its kind, if it is a token. -/
def Fits : Piece → Prop
  | filler _ _ => True
  | token kind cs => kind.Fits (String.ofList cs)

/-! ### What the lexer makes -/

theorem exists_of_map_eq_ok {ε α β : Type} {x : Except ε α} {f : α → β} {b : β}
    (h : x.map f = .ok b) : ∃ a, x = .ok a ∧ f a = b := by
  cases x with
  | error fault => cases h
  | ok a => exact ⟨a, rfl, Except.ok.inj h⟩

theorem opens_ofList (h : c ≠ '\'') (cs : List Char) : Opens (String.ofList (c :: cs)) := by
  simpa [Opens] using h

theorem ne_quote_of_isNameStart (h : isNameStart c = true) : c ≠ '\'' :=
  (ne_of_isNameChar (isNameChar_of_isNameStart h)).2.2.2.1

theorem fits_literal (h : cs ≠ []) : (token .literal cs).Fits := by
  simpa [Fits, TokenKind.Fits, ← String.toList_inj] using h

theorem fits_ident (h : isNameStart c = true) (cs : List Char) : (token .ident (c :: cs)).Fits :=
  opens_ofList (ne_quote_of_isNameStart h) cs

theorem stringLiteral_fits {front : List Char} {split : List Piece × List Char}
    (h : stringLiteral front cs = .ok split) : ∀ p ∈ split.1, p.Fits := by
  simp only [stringLiteral] at h
  split at h
  · cases h
    simpa using fits_literal (by simp)
  · cases h

theorem rawStringLiteral_fits {front : List Char} {split : List Piece × List Char}
    (h : rawStringLiteral front cs = .ok split) : ∀ p ∈ split.1, p.Fits := by
  simp only [rawStringLiteral] at h
  split at h
  · split at h
    · cases h
      simpa using fits_literal (by simp)
    · cases h
  · cases h

/-- What follows a quote is the name of a lifetime, or it belongs to a literal. -/
theorem quoteRest_fits {kind : TokenKind} {text : List Char}
    (h : quoteRest cs = .ok (kind, text, rest)) : (token kind ('\'' :: text)).Fits := by
  simp only [quoteRest] at h
  split at h
  · cases h
  · split at h
    · cases h
      exact fits_literal (by simp)
    · cases h
  · cases h
    exact fits_literal (by simp)
  · split at h
    · rename_i hstart
      cases h
      refine isLifetime_iff.mpr ⟨_, _, String.toList_ofList, hstart, ?_⟩
      intro x hx
      exact List.all_eq_true.mp List.all_takeWhile x hx
    · cases h
  · cases h

theorem quote_fits {split : List Piece × List Char} (h : quote cs = .ok split) :
    ∀ p ∈ split.1, p.Fits := by
  cases hrest : quoteRest cs with
  | error => simp [quote, hrest, Except.map] at h
  | ok r =>
      simp only [quote, hrest, Except.map, Except.ok.injEq] at h
      rw [← h]
      simpa using quoteRest_fits hrest

theorem byteLiteral_fits {split : List Piece × List Char} (h : byteLiteral cs = .ok split) :
    ∀ p ∈ split.1, p.Fits := by
  cases hrest : quoteRest cs with
  | error => simp [byteLiteral, hrest, Except.map] at h
  | ok r =>
      simp only [byteLiteral, hrest, Except.map, Except.ok.injEq] at h
      rw [← h]
      simpa using fits_literal (by simp)

theorem isNameStart_of_rawName? {cs ds : List Char} (h : rawName? cs = some (c, ds)) :
    isNameStart c = true := by
  unfold rawName? at h
  split at h
  · split at h
    · rename_i hstart
      cases h
      exact hstart
    · cases h
  · cases h

theorem word_fits {split : List Piece × List Char} (hc : isNameStart c = true)
    (h : word c cs = .ok split) : ∀ p ∈ split.1, p.Fits := by
  simp only [word, Bool.and_eq_true] at h
  split at h
  · exact stringLiteral_fits h
  split at h
  · exact byteLiteral_fits h
  split at h
  · exact rawStringLiteral_fits h
  split at h
  · exact rawStringLiteral_fits h
  split at h
  · rename_i d ds hraw
    cases h
    have hd : isNameStart d = true := by
      split at hraw
      · exact isNameStart_of_rawName? hraw
      · cases hraw
    simpa [Fits] using fits_ident hd _
  · cases h
    simpa using fits_ident hc _

theorem mark_fits (hc : c ≠ '\'') (cs : List Char) : ∀ p ∈ (mark c cs).1, p.Fits := by
  have hfits : ∀ more, (token .punct (c :: more)).Fits := opens_ofList hc
  cases cs with
  | nil => simpa [mark] using hfits []
  | cons d cs =>
      rw [mark]
      split
      · simpa using hfits [d]
      · simpa using hfits []

theorem next_fits {split : List Piece × List Char} (h : next c cs = .ok split) :
    ∀ p ∈ split.1, p.Fits := by
  simp only [next] at h
  split at h
  · cases h
    simp [Fits]
  split at h
  · cases h
    simp [Fits]
  split at h
  · split at h
    · cases h
      simp [Fits]
    · cases h
  split at h
  · exact stringLiteral_fits h
  split at h
  · exact quote_fits h
  split at h
  · rename_i hstart
    exact word_fits hstart h
  split at h
  · cases h
    simpa using fits_literal (by simp)
  · rename_i hquote _ _
    cases h
    exact mark_fits (by simpa using hquote) cs

/-- What holds of every piece that is taken in one step holds of all pieces. -/
theorem forall_of_piecesFrom {P : Piece → Prop} {line : Nat} {ps : List Piece}
    (hnext : ∀ {c cs split}, next c cs = .ok split → ∀ p ∈ split.1, P p)
    (h : piecesFrom line cs = .ok ps) : ∀ p ∈ ps, P p := by
  obtain ⟨n, hn⟩ : ∃ n, cs.length = n := ⟨_, rfl⟩
  induction n using Nat.strongRecOn generalizing line cs ps with
  | ind n ih =>
      rw [piecesFrom.eq_def] at h
      split at h
      · cases h
        simp
      · split at h
        · cases h
        · rename_i qs rest hstep
          obtain ⟨ps', hps', rfl⟩ := exists_of_map_eq_ok h
          have hall := ih _ (hn ▸ length_lt_of_next hstep) hps' rfl
          intro p hp
          rcases List.mem_append.mp hp with hp | hp
          · exact hnext hstep p hp
          · exact hall p hp

theorem token_mem_of_mem_tokensFrom {line : Nat} {ps : List Piece} {t : Token}
    (h : t ∈ tokensFrom line ps) : token t.kind t.text.toList ∈ ps := by
  induction ps generalizing line with
  | nil => simp [tokensFrom] at h
  | cons p ps ih =>
      cases p with
      | filler kind cs => exact List.mem_cons_of_mem _ (ih h)
      | token kind cs =>
          rcases List.mem_cons.mp h with rfl | h
          · simp
          · exact List.mem_cons_of_mem _ (ih h)

/-- What holds of every token that is taken in one step holds of all tokens of a text. -/
theorem forall_of_lex {P : TokenKind → List Char → Prop} {text : String} {ts : List Token}
    (hnext : ∀ {c cs split}, next c cs = .ok split →
      ∀ {kind text}, token kind text ∈ split.1 → P kind text)
    (h : lex text = .ok ts) : ∀ t ∈ ts, P t.kind t.text.toList := by
  obtain ⟨ps, hps, rfl⟩ := exists_of_map_eq_ok h
  have hpieces : ∀ {line cs ps}, piecesFrom line cs = .ok ps →
      ∀ p ∈ ps, ∀ kind text, p = token kind text → P kind text := fun h =>
    forall_of_piecesFrom (fun hstep p hp kind text heq => hnext hstep (heq ▸ hp)) h
  intro t ht
  have hmem := token_mem_of_mem_tokensFrom ht
  unfold pieces at hps
  split at hps
  · obtain ⟨ps', hps', rfl⟩ := exists_of_map_eq_ok hps
    rcases List.mem_cons.mp hmem with heq | hmem
    · cases heq
    · exact hpieces hps' _ hmem _ _ rfl
  · exact hpieces hps _ hmem _ _ rfl

end Piece

open Token

/-- **The text of every token that the lexer makes fits its kind.** -/
theorem allFit_of_lex {text : String} {ts : List Token} (h : lex text = .ok ts) : AllFit ts := by
  have hfits := forall_of_lex (P := fun kind cs => kind.Fits (String.ofList cs))
    (fun hstep => next_fits hstep _) h
  intro t ht
  simpa [Token.Fits] using hfits t ht

/-- The tokens of a text whose brackets match. -/
theorem lex_of_tokenize {text : String} {ts : List Token} (h : tokenize text = .ok ts) :
    lex text = .ok ts ∧ ∃ pairs, groupsFrom 0 [] ts = .ok pairs := by
  unfold tokenize at h
  cases hlex : lex text with
  | error fault =>
      rw [hlex] at h
      cases h
  | ok us =>
      rw [hlex] at h
      obtain ⟨pairs, hpairs, rfl⟩ := exists_of_map_eq_ok h
      exact ⟨rfl, pairs, hpairs⟩

theorem balanced_of_tokenize {text : String} {ts : List Token} (h : tokenize text = .ok ts) :
    Balanced ts :=
  have ⟨_, hpairs⟩ := (lex_of_tokenize h).2
  .of_groupsFrom hpairs

theorem allFit_of_tokenize {text : String} {ts : List Token} (h : tokenize text = .ok ts) :
    AllFit ts := allFit_of_lex (lex_of_tokenize h).1

/-! ### Runs -/

namespace Run

variable {ts run after : List Token}

theorem append_of_map_onto {t : Token} {split? : Option (List Token × List Token)}
    (ih : ∀ {run after}, split? = some (run, after) → run ++ after = ts)
    (h : split?.map (onto t) = some (run, after)) : run ++ after = t :: ts := by
  obtain ⟨⟨inner, rest⟩, hinner, honto⟩ := Option.map_eq_some_iff.mp h
  obtain ⟨rfl, rfl⟩ := Prod.mk.inj honto
  rw [List.cons_append, ih hinner]

theorem closing_append_eq {depth : Nat} (h : closing depth ts = some (run, after)) :
    run ++ after = ts := by
  fun_induction closing depth ts generalizing run after with
  | case1 => cases h
  | case2 _ _ _ _ ih | case4 _ _ _ _ _ _ ih | case5 _ _ _ _ _ ih => exact append_of_map_onto ih h
  | case3 =>
      cases h
      rfl

theorem group?_append_eq (h : group? ts = some (run, after)) : run ++ after = ts := by
  cases ts with
  | nil => cases h
  | cons t ts =>
      rw [group?] at h
      split at h
      · exact append_of_map_onto closing_append_eq h
      · cases h

/-- A group begins with the token that opens it. -/
theorem ne_nil_of_group? (h : group? ts = some (run, after)) : run ≠ [] := by
  cases ts with
  | nil => cases h
  | cons t ts =>
      rw [group?] at h
      split at h
      · obtain ⟨⟨inner, rest⟩, -, honto⟩ := Option.map_eq_some_iff.mp h
        obtain ⟨rfl, -⟩ := Prod.mk.inj honto
        exact List.cons_ne_nil t inner
      · cases h

theorem angles?_append_eq {brackets angles : Nat}
    (h : angles? brackets angles ts = some (run, after)) : run ++ after = ts := by
  fun_induction angles? brackets angles ts generalizing run after with
  | case1 => cases h
  | case5 =>
      cases h
      rfl
  | case2 _ _ _ _ _ ih | case3 _ _ _ _ _ _ ih | case4 _ _ _ _ _ _ _ ih
  | case6 _ _ _ _ _ _ _ _ _ ih | case7 _ _ _ _ _ _ _ _ ih => exact append_of_map_onto ih h

theorem untilEnd_append (brackets angles : Nat) (ts : List Token) :
    (untilEnd brackets angles ts).1 ++ (untilEnd brackets angles ts).2 = ts := by
  fun_induction untilEnd brackets angles ts with
  | case1 | case2 => rfl
  | case3 _ _ _ _ _ _ ih | case4 _ _ _ _ _ _ _ ih | case5 _ _ _ _ _ _ _ _ ih
  | case6 _ _ _ _ _ _ _ _ _ ih | case7 _ _ _ _ _ _ _ _ _ ih =>
      rw [onto, List.cons_append, ih]

/-- What follows an item is the end of the list. -/
theorem afterItem_suffix (brackets : Nat) (braces : Bool) (ts : List Token) :
    afterItem brackets braces ts <:+ ts := by
  fun_induction afterItem brackets braces ts with
  | case1 => exact List.suffix_rfl
  | case3 | case5 => exact List.suffix_cons _ _
  | case2 _ _ _ _ _ ih | case4 _ _ _ _ _ ih | case6 _ _ _ _ _ _ _ _ ih
  | case7 _ _ _ _ _ _ _ ih => exact ih.trans (List.suffix_cons _ _)

end Run

end ConversionClosure
