/-
Tokens that are lexed again.

The lexer makes a token again of the token's own text, whatever stands behind, unless the token runs
into that: a word goes on with the characters of a word, and a mark may be the first half of another
mark or of what opens a comment.  So a run of tokens that is written as a text, with blanks where
neighbours need them, is lexed as tokens that are alike, as long as no two neighbours run together.
Only their lines may be others.
-/
import Mathlib.Data.List.Chain
import Mathlib.Data.List.Forall2
import ConversionClosure.Proofs.Balance
import ConversionClosure.Proofs.Lookahead

namespace ConversionClosure

open Text

namespace Piece

variable {c d : Char} {cs body rest more : List Char} {split : List Char × List Char}

/-! ### Literals with another text behind them -/

theorem stringRest_self (h : stringRest cs = some split) (more : List Char) :
    stringRest (split.1 ++ more) = some (split.1, more) := by
  fun_induction stringRest cs generalizing split with
  | case1 => cases h
  | case2 => cases h
  | case3 c cs ih =>
      obtain ⟨inner, hinner, rfl⟩ := Option.map_eq_some_iff.mp h
      show stringRest ('\\' :: c :: (inner.1 ++ more)) = _
      rw [stringRest, ih hinner]
      rfl
  | case4 =>
      cases h
      rfl
  | case5 c cs hlone hescape hquote ih =>
      obtain ⟨inner, hinner, rfl⟩ := Option.map_eq_some_iff.mp h
      have hslash : c ≠ '\\' := by
        rintro rfl
        cases cs with
        | nil => exact hlone rfl rfl
        | cons d cs => exact hescape d cs rfl rfl
      show stringRest (c :: (inner.1 ++ more)) = _
      rw [stringRest, ih hinner]
      · rfl
      · exact fun hc _ => hslash hc
      · exact fun _ _ hc _ => hslash hc
      · exact hquote

/-- The rest of a raw string literal has its quote and hashes at the end. -/
theorem lt_length_of_rawStringRest {hashes : Nat} (h : rawStringRest hashes cs = some split) :
    hashes < split.1.length := by
  induction cs generalizing split with
  | nil => cases h
  | cons c cs ih =>
      rw [rawStringRest] at h
      split at h
      · cases h
        simp
      · obtain ⟨inner, hinner, rfl⟩ := Option.map_eq_some_iff.mp h
        exact Nat.lt_succ_of_lt (ih hinner)

theorem isPrefixOf_append_of_le {start : List Char} (h : start.length ≤ cs.length)
    (more : List Char) : start.isPrefixOf (cs ++ more) = start.isPrefixOf cs := by
  induction start generalizing cs with
  | nil => simp
  | cons a start ih =>
      cases cs with
      | nil => simp at h
      | cons c cs => simp [List.isPrefixOf, ih (by simpa using h)]

theorem rawStringRest_self {hashes : Nat} (h : rawStringRest hashes cs = some split)
    (more : List Char) : rawStringRest hashes (split.1 ++ more) = some (split.1, more) := by
  induction cs generalizing split with
  | nil => cases h
  | cons c cs ih =>
      rw [rawStringRest] at h
      split at h
      · rename_i hend
        cases h
        have hstart : (List.replicate hashes '#').isPrefixOf (List.replicate hashes '#' ++ more) =
            true := List.isPrefixOf_iff_prefix.mpr (List.prefix_append _ _)
        rw [List.cons_append, rawStringRest, if_pos ⟨hend.1, hstart⟩]
        simp
      · rename_i hend
        obtain ⟨inner, hinner, rfl⟩ := Option.map_eq_some_iff.mp h
        have hlength : (List.replicate hashes '#').length ≤ inner.1.length := by
          simpa using Nat.le_of_lt (lt_length_of_rawStringRest hinner)
        have hsame : (List.replicate hashes '#').isPrefixOf (inner.1 ++ more) =
            (List.replicate hashes '#').isPrefixOf cs := by
          rw [← rawStringRest_append hinner, isPrefixOf_append_of_le hlength,
            isPrefixOf_append_of_le hlength]
        show rawStringRest hashes (c :: (inner.1 ++ more)) = _
        rw [rawStringRest, hsame, if_neg hend, ih hinner]
        rfl

theorem stringLiteral_self {front : List Char} {ps : List Piece}
    (h : stringLiteral front cs = .ok (ps, rest)) : ∃ body,
    ps = [token .literal (front ++ '"' :: body)] ∧
      ∀ more, stringLiteral front (body ++ more) = .ok (ps, more) := by
  unfold stringLiteral at h ⊢
  cases hrest : stringRest cs with
  | none =>
      rw [hrest] at h
      cases h
  | some split =>
      rw [hrest] at h
      cases h
      exact ⟨split.1, rfl, fun more => by rw [stringRest_self hrest]⟩

theorem rawStringLiteral_self {front : List Char} {ps : List Piece}
    (h : rawStringLiteral front cs = .ok (ps, rest)) : ∃ hashes body,
    ps = [token .literal (front ++ (List.replicate hashes '#' ++ '"' :: body))] ∧
      ∀ more, rawStringLiteral front (List.replicate hashes '#' ++ '"' :: (body ++ more)) =
        .ok (ps, more) := by
  unfold rawStringLiteral at h ⊢
  simp only at h ⊢
  split at h
  · rename_i inner hdrop
    cases hrest : rawStringRest (cs.takeWhile (· == '#')).length inner with
    | none =>
        rw [hrest] at h
        cases h
    | some split =>
        rw [hrest] at h
        cases h
        obtain ⟨n, hn⟩ : ∃ n, cs.takeWhile (· == '#') = List.replicate n '#' :=
          ⟨_, List.eq_replicate_iff.mpr ⟨rfl, fun x hx =>
            eq_of_beq (List.all_eq_true.mp (List.all_takeWhile (p := (· == '#'))) x hx)⟩⟩
        rw [hn, List.length_replicate] at hrest
        refine ⟨n, split.1, by rw [hn, List.append_assoc], fun more => ?_⟩
        have hall : ∀ x ∈ List.replicate n '#', (x == '#') = true := by simp
        rw [List.takeWhile_append_of_pos hall, List.dropWhile_append_of_pos hall,
          List.takeWhile_cons_of_neg (by decide), List.dropWhile_cons_of_neg (by decide),
          List.append_nil]
        simp only [List.length_replicate, rawStringRest_self hrest, hn]
  · cases h

theorem quoteRest_self {kind : TokenKind} (h : quoteRest cs = .ok (kind, body, rest))
    (hmore : Separates more) : quoteRest (body ++ more) = .ok (kind, body, more) := by
  unfold quoteRest at h
  split at h
  · cases h
  · rename_i c cs
    split at h
    · rename_i last after hdrop
      cases h
      obtain rfl : last = '\'' := by
        have hhead := List.head?_dropWhile_not (· != '\'') cs
        rw [hdrop] at hhead
        simpa using hhead
      have hall : ∀ x ∈ cs.takeWhile (· != '\''), (x != '\'') = true := fun x hx =>
        List.all_eq_true.mp (List.all_takeWhile (p := (· != '\''))) x hx
      rw [List.append_assoc, List.cons_append, List.cons_append, quoteRest, List.singleton_append,
        List.takeWhile_append_of_pos hall, List.dropWhile_append_of_pos hall,
        List.takeWhile_cons_of_neg (by decide), List.dropWhile_cons_of_neg (by decide),
        List.append_nil]
    · cases h
  · rename_i c after hne
    cases h
    rw [List.cons_append, List.cons_append, List.nil_append, quoteRest]
    exact hne
  · rename_i c cs hlone hescape htick
    split at h
    · rename_i hstart
      cases h
      have hall : ∀ x ∈ cs.takeWhile isNameChar, isNameChar x = true := fun x hx =>
        List.all_eq_true.mp List.all_takeWhile x hx
      have hslash : c ≠ '\\' := (ne_of_isNameChar (isNameChar_of_isNameStart hstart)).2.2.2.2
      have hhead : (cs.takeWhile isNameChar ++ more).head? ≠ some '\'' := by
        have hbeq := head?_append_ne (d := '\'') hall hmore (by decide) (by decide)
        simpa using hbeq
      rw [List.cons_append, quoteRest_name hslash hhead, if_pos hstart, takeWhile_append hall hmore,
        dropWhile_append hall hmore]
    · cases h
  · cases h

/-! ### What a token runs into -/

/-- A mark and a character that goes on with it: to another mark, or to the opening of a comment. -/
def continuations : List (List Char × Char) :=
  [([':'], ':'), (['-'], '>'), (['='], '>'), (['/'], '/'), (['/'], '*')]

/-- The character would go on with the token, or make another token of it. -/
def runsInto (kind : TokenKind) (text : List Char) (d : Char) : Bool :=
  if kind = .punct then continuations.contains (text, d) else !isSeparator d

/-- In front of whatever it does not run into, the text is the token. -/
def Stays (kind : TokenKind) (text : List Char) : Prop :=
  ∃ c body, text = c :: body ∧ ∀ more, (∀ d ∈ more.head?, runsInto kind text d = false) →
    next c (body ++ more) = .ok ([token kind text], more)

theorem stays_word {kind : TokenKind} (hkind : kind ≠ .punct)
    (h : ∀ more, Separates more → next c (body ++ more) = .ok ([token kind (c :: body)], more)) :
    Stays kind (c :: body) := by
  refine ⟨c, body, rfl, fun more hmore => h more fun d hd => ?_⟩
  simpa [runsInto, hkind] using hmore d hd

theorem stays_identifier (hc : isNameStart c = true) (hcs : ∀ x ∈ cs, isNameChar x = true) :
    Stays .ident (c :: cs) :=
  stays_word (by simp) fun _ hmore => next_identifier hc hcs hmore

theorem next_word (hc : isNameStart c = true) (cs : List Char) : next c cs = word c cs := by
  obtain ⟨hblank, hslash, hquote, htick, -⟩ := ne_of_isNameChar (isNameChar_of_isNameStart hc)
  unfold next
  simp only [hblank, beq_eq_false_iff_ne.mpr hslash, beq_eq_false_iff_ne.mpr hquote,
    beq_eq_false_iff_ne.mpr htick, hc, Bool.false_and, Bool.false_eq_true, if_false, if_true]

theorem isNameChar_of_mem_takeWhile {x : Char} (h : x ∈ cs.takeWhile isNameChar) :
    isNameChar x = true := List.all_eq_true.mp List.all_takeWhile x h

theorem word_stays (hc : isNameStart c = true) {split : List Piece × List Char}
    (h : word c cs = .ok split) {kind : TokenKind} {text : List Char}
    (hmem : token kind text ∈ split.1) : Stays kind text := by
  obtain ⟨ps, rest⟩ := split
  simp only [word, Bool.and_eq_true] at h
  split at h
  · rename_i hmark
    obtain ⟨body, rfl, hself⟩ := stringLiteral_self h
    obtain ⟨rfl, rfl⟩ := by simpa using hmem
    refine stays_word (by simp) fun more _ => ?_
    rw [next_word hc, List.cons_append, word]
    simpa [hmark.1] using hself more
  split at h
  · rename_i hmark
    obtain rfl : c = 'b' := eq_of_beq hmark.1
    obtain ⟨⟨kind', body, after⟩, hquote, hsplit⟩ := exists_of_map_eq_ok h
    cases hsplit
    obtain ⟨rfl, rfl⟩ := by simpa using hmem
    refine stays_word (by simp) fun more hmore => ?_
    rw [next_word hc, List.cons_append, word]
    simp [byteLiteral, quoteRest_self hquote hmore, Except.map]
  split at h
  · rename_i hmark
    obtain ⟨hashes, body, rfl, hself⟩ := rawStringLiteral_self h
    obtain ⟨rfl, rfl⟩ := by simpa using hmem
    refine stays_word (by simp) fun more _ => ?_
    have hhead : ((List.replicate hashes '#' ++ '"' :: (body ++ more)).head? == some '"' ||
        (List.replicate hashes '#' ++ '"' :: (body ++ more)).head? == some '#') = true := by
      cases hashes with
      | zero => rfl
      | succ n => rfl
    have hread := hself more
    rw [next_word hc]
    simp only [List.cons_append, List.nil_append, List.append_assoc] at hread ⊢
    generalize List.replicate hashes '#' ++ '"' :: (body ++ more) = run at hhead hread ⊢
    simp [word, hmark.1, hhead, hread]
  split at h
  · rename_i hmark
    obtain rfl : c = 'r' := eq_of_beq hmark.1
    obtain ⟨hashes, body, rfl, hself⟩ := rawStringLiteral_self h
    obtain ⟨rfl, rfl⟩ := by simpa using hmem
    refine stays_word (by simp) fun more _ => ?_
    have hopens : opensRawString (List.replicate hashes '#' ++ '"' :: (body ++ more)) = true := by
      rcases hashes with _ | _ | n <;> rfl
    have hread := hself more
    rw [next_word hc]
    simp only [List.cons_append, List.nil_append, List.append_assoc] at hread ⊢
    generalize List.replicate hashes '#' ++ '"' :: (body ++ more) = run at hopens hread ⊢
    simp [word, hopens, hread]
  split at h
  · rename_i d ds hraw
    cases h
    obtain ⟨rfl, rfl⟩ := by simpa using hmem
    have hd : isNameStart d = true := by
      split at hraw
      · exact isNameStart_of_rawName? hraw
      · cases hraw
    exact stays_identifier hd fun x => isNameChar_of_mem_takeWhile
  · cases h
    obtain ⟨rfl, rfl⟩ := by simpa using hmem
    exact stays_identifier hc fun x => isNameChar_of_mem_takeWhile

/-- A mark of its own kind: what the lexer comes to when it is nothing else. -/
theorem next_mark (hblank : isBlank c = false) (hquote : c ≠ '"') (htick : c ≠ '\'')
    (hstart : isNameStart c = false) (hdigit : isDigit c = false)
    (hcomment : c = '/' → ∀ d ∈ cs.head?, d ≠ '/' ∧ d ≠ '*') : next c cs = .ok (mark c cs) := by
  have hnone : ∀ d, d = '/' ∨ d = '*' → (c == '/' && cs.head? == some d) = false := by
    intro d hd
    rw [Bool.eq_false_iff]
    intro h
    simp only [Bool.and_eq_true, beq_iff_eq] at h
    obtain ⟨hslash, hstar⟩ := hcomment h.1 d h.2
    exact hd.elim hslash hstar
  unfold next
  simp only [hblank, hnone '/' (.inl rfl), hnone '*' (.inr rfl), beq_eq_false_iff_ne.mpr hquote,
    beq_eq_false_iff_ne.mpr htick, hstart, hdigit, Bool.false_eq_true, if_false]

theorem mark_stays (hblank : isBlank c = false) (hquote : c ≠ '"') (htick : c ≠ '\'')
    (hstart : isNameStart c = false) (hdigit : isDigit c = false) {kind : TokenKind}
    {text : List Char} (hmem : token kind text ∈ (mark c cs).1) : Stays kind text := by
  have hnext : ∀ cs, (c = '/' → ∀ d ∈ cs.head?, d ≠ '/' ∧ d ≠ '*') → next c cs = .ok (mark c cs) :=
    fun _ => next_mark hblank hquote htick hstart hdigit
  have hone : Stays .punct [c] := by
    refine ⟨c, [], rfl, fun more hmore => ?_⟩
    have hfree : ∀ d ∈ more.head?, ([c], d) ∉ continuations := by
      simpa [runsInto] using hmore
    rw [List.nil_append, hnext more]
    · cases more with
      | nil => rfl
      | cons d more =>
          have hpair : (c, d) ∉ [(':', ':'), ('-', '>'), ('=', '>')] := by
            intro hmem
            refine hfree d rfl ?_
            simp only [List.mem_cons, Prod.mk.injEq, List.not_mem_nil, or_false] at hmem
            rcases hmem with ⟨rfl, rfl⟩ | ⟨rfl, rfl⟩ | ⟨rfl, rfl⟩ <;> decide
          rw [mark, if_neg hpair]
    · rintro rfl d hd
      have hd := hfree d hd
      constructor <;> rintro rfl <;> exact hd (by decide)
  cases cs with
  | nil =>
      obtain ⟨rfl, rfl⟩ := by simpa [mark] using hmem
      exact hone
  | cons d cs =>
      rw [mark] at hmem
      split at hmem
      · rename_i hpair
        obtain ⟨rfl, rfl⟩ := by simpa using hmem
        refine ⟨c, [d], rfl, fun more _ => ?_⟩
        rw [List.singleton_append, hnext]
        · rw [mark, if_pos hpair]
        · rintro rfl
          revert hpair
          simp
      · obtain ⟨rfl, rfl⟩ := by simpa using hmem
        exact hone

/-- **Every token that the lexer makes is made again** in front of what it does not run into. -/
theorem next_stays {split : List Piece × List Char} (h : next c cs = .ok split) {kind : TokenKind}
    {text : List Char} (hmem : token kind text ∈ split.1) : Stays kind text := by
  simp only [next] at h
  split at h
  · cases h
    simp at hmem
  rename_i hblank
  split at h
  · cases h
    simp at hmem
  split at h
  · split at h
    · cases h
      simp at hmem
    · cases h
  split at h
  · rename_i hquote
    obtain rfl : c = '"' := eq_of_beq hquote
    obtain ⟨ps, rest⟩ := split
    obtain ⟨body, rfl, hself⟩ := stringLiteral_self h
    obtain ⟨rfl, rfl⟩ := by simpa using hmem
    refine stays_word (by simp) fun more _ => ?_
    have hblank' : isBlank '"' = false := by decide
    simpa [next, hblank'] using hself more
  rename_i hquote
  split at h
  · rename_i htick
    obtain rfl : c = '\'' := eq_of_beq htick
    obtain ⟨⟨kind', body, after⟩, hrest, hsplit⟩ := exists_of_map_eq_ok h
    cases hsplit
    obtain ⟨rfl, rfl⟩ := by simpa using hmem
    have hkind : kind ≠ .punct := by
      rintro rfl
      exact absurd (quoteRest_fits hrest) (by simp [Fits, TokenKind.Fits, Opens])
    refine stays_word hkind fun more hmore => ?_
    have hblank' : isBlank '\'' = false := by decide
    simp [next, hblank', quote, quoteRest_self hrest hmore, Except.map]
  rename_i htick
  split at h
  · rename_i hstart
    exact word_stays hstart h hmem
  rename_i hstart
  split at h
  · rename_i hdigit
    cases h
    obtain ⟨rfl, rfl⟩ := by simpa using hmem
    refine stays_word (by simp) fun more hmore => ?_
    exact next_number hdigit (by simpa using hstart) (fun x => isNameChar_of_mem_takeWhile) hmore
  · rename_i hdigit
    cases h
    exact mark_stays (by simpa using hblank) (by simpa using hquote) (by simpa using htick)
      (by simpa using hstart) (by simpa using hdigit) hmem

end Piece

namespace Token

variable {t u : Token} {ts us : List Token} {line : Nat} {rest : List Char}

/-! ### Tokens on other lines -/

/-- The two tokens differ in their lines at most. -/
def Like (t u : Token) : Prop := ∃ line, u = { t with line }

/-- The two lists have tokens that differ in their lines at most. -/
abbrev Alike : List Token → List Token → Prop := List.Forall₂ Like

namespace Alike

theorem eq_nil (h : Alike [] us) : us = [] := List.forall₂_nil_left_iff.mp h

theorem exists_cons (h : Alike (t :: ts) us) :
    ∃ line vs, us = { t with line } :: vs ∧ Alike ts vs := by
  obtain ⟨_, vs, ⟨line, rfl⟩, hvs, rfl⟩ := List.forall₂_cons_left_iff.mp h
  exact ⟨line, vs, rfl, hvs⟩

theorem exists_append {ts' : List Token} (h : Alike (ts ++ ts') us) :
    ∃ vs vs', us = vs ++ vs' ∧ Alike ts vs ∧ Alike ts' vs' := by
  induction ts generalizing us with
  | nil => exact ⟨[], us, rfl, .nil, h⟩
  | cons t ts ih =>
      obtain ⟨line, ws, rfl, hws⟩ := exists_cons h
      obtain ⟨vs, vs', rfl, hvs, hvs'⟩ := ih hws
      exact ⟨_ :: vs, vs', rfl, .cons ⟨line, rfl⟩ hvs, hvs'⟩

/-- Lines are not written. -/
theorem join_eq (h : Alike ts us) : join us = join ts := by
  induction h with
  | nil => rfl
  | @cons t _ ts us hlike hmore ih =>
      obtain ⟨line, rfl⟩ := hlike
      cases hmore with
      | nil => rfl
      | cons hlike' _ =>
          obtain ⟨line', rfl⟩ := hlike'
          rw [join, join, ih]
          rfl

/-- The brackets match on whatever lines they are. -/
theorem balanced (h : Balanced ts) (halike : Alike ts us) : Balanced us := by
  induction h generalizing us with
  | nil => exact halike.eq_nil ▸ .nil
  | inner ht _ ih =>
      obtain ⟨line, vs, rfl, hvs⟩ := halike.exists_cons
      exact .inner ht (ih hvs)
  | group ho hc _ _ ihinner ih =>
      obtain ⟨line, vs, rfl, hvs⟩ := halike.exists_cons
      obtain ⟨inner, ws, rfl, hinner, hws⟩ := exists_append hvs
      obtain ⟨line', xs, rfl, hxs⟩ := exists_cons hws
      exact .group ho hc (ihinner hinner) (ih hxs)

end Alike

/-! ### Runs that are written -/

/-- The character would go on with the token, or make another token of it. -/
def runsInto (t : Token) (d : Char) : Bool := Piece.runsInto t.kind t.text.toList d

/-- In front of whatever it does not run into, the text of the token is the token. -/
def Stays (t : Token) : Prop := Piece.Stays t.kind t.text.toList

/-- Every token that the lexer makes stays what it is. -/
theorem stays_of_lex {text : String} (h : lex text = .ok ts) : ∀ t ∈ ts, t.Stays :=
  Piece.forall_of_lex Piece.next_stays h

/-- A blank and the marks that stand behind a type end any token. -/
theorem runsInto_closer (t : Token) {d : Char} (hd : d ∈ [' ', ',', ';', ')', ']']) :
    t.runsInto d = false := by
  unfold runsInto Piece.runsInto
  simp only [List.mem_cons, List.not_mem_nil, or_false] at hd
  split
  · rcases hd with rfl | rfl | rfl | rfl | rfl <;> simp [Piece.continuations]
  · rcases hd with rfl | rfl | rfl | rfl | rfl <;> decide

/-- No text of a token is empty. -/
theorem Stays.exists_head? (h : t.Stays) (rest : List Char) :
    ∃ c, t.text.toList.head? = some c ∧ (t.text.toList ++ rest).head? = some c := by
  obtain ⟨c, body, htext, -⟩ := h
  exact ⟨c, by rw [htext]; rfl, by rw [htext]; rfl⟩

theorem Stays.exists_lexesTo (h : t.Stays) (hrest : ∀ d ∈ rest.head?, t.runsInto d = false)
    (line : Nat) :
    ∃ line', LexesTo line t.text.toList [{ t with line }] line' rest := by
  obtain ⟨c, body, htext, hnext⟩ := h
  refine ⟨line + Piece.breaksAll [Piece.token t.kind t.text.toList], ?_⟩
  rw [LexesTo, htext, List.cons_append, Piece.lexFrom_of_next (hnext rest hrest), htext]
  have hone : Piece.tokensFrom line [Piece.token t.kind (c :: body)] = [{ t with line }] := by
    rw [← htext, Piece.tokensFrom, String.ofList_toList]
    rfl
  rw [hone]

/-- The two tokens stay two when they are written next to each other, with a blank between them
where they need one. -/
def Meets (t u : Token) : Prop :=
  needsBlank t u = true ∨ ∀ d ∈ u.text.toList.head?, t.runsInto d = false

-- The instance is named, since the one for every character would be found first.
instance (t u : Token) : Decidable (t.Meets u) :=
  @instDecidableOr _ _ _ (Option.decidableForallMem _)

/-- **The text of a run is lexed as the run**, if no neighbours in it run together and its last
token does not run into what stands behind. -/
theorem exists_lexesTo_join (hstays : ∀ t ∈ ts, t.Stays) (hmeets : ts.IsChain Meets)
    (hlast : ∀ t ∈ ts.getLast?, ∀ d ∈ rest.head?, t.runsInto d = false) (line : Nat) :
    ∃ us line', Alike ts us ∧ LexesTo line (join ts).toList us line' rest := by
  induction ts generalizing line with
  | nil => exact ⟨[], line, .nil, Lexes.nil.lexesTo⟩
  | cons t ts ih =>
      have ht := hstays t (by simp)
      cases ts with
      | nil =>
          obtain ⟨line', hlexes⟩ := ht.exists_lexesTo (hlast t rfl) line
          exact ⟨_, line', .cons ⟨line, rfl⟩ .nil, hlexes⟩
      | cons u ts =>
          obtain ⟨hmeet, hmore⟩ := List.isChain_cons_cons.mp hmeets
          have hlater : ∀ line, ∃ us line', Alike (u :: ts) us ∧
              LexesTo line (join (u :: ts)).toList us line' rest :=
            ih (fun v hv => hstays v (by simp [hv])) hmore (by simpa using hlast)
          have hjoin : (join (t :: u :: ts)).toList = t.text.toList ++
              ((if needsBlank t u then " " else "").toList ++ (join (u :: ts)).toList) := by
            rw [join, String.toList_append, String.toList_append, List.append_assoc]
          rw [hjoin]
          by_cases hblank : needsBlank t u = true
          · rw [if_pos hblank]
            have hspace : ∀ d ∈ (" ".toList ++ (join (u :: ts)).toList ++ rest).head?,
                t.runsInto d = false := by
              intro d hd
              obtain rfl : ' ' = d := by simpa using hd
              exact runsInto_closer t (by simp)
            obtain ⟨mid, hfirst⟩ := ht.exists_lexesTo hspace line
            obtain ⟨us, line', halike, hlexes⟩ := hlater mid
            exact ⟨_, line', .cons ⟨line, rfl⟩ halike,
              hfirst.append (Lexes.blank.lexesTo.append hlexes)⟩
          · rw [if_neg hblank]
            have hhead : ((join (u :: ts)).toList ++ rest).head? = u.text.toList.head? := by
              obtain ⟨c, hc, -⟩ := (hstays u (by simp)).exists_head? []
              cases ts with
              | nil => rw [join, List.head?_append, hc]; rfl
              | cons v ts => simp [join, List.head?_append, hc]
            have hfree : ∀ d ∈ ("".toList ++ (join (u :: ts)).toList ++ rest).head?,
                t.runsInto d = false :=
              fun d hd => hmeet.resolve_left hblank d (hhead ▸ hd)
            obtain ⟨mid, hfirst⟩ := ht.exists_lexesTo hfree line
            obtain ⟨us, line', halike, hlexes⟩ := hlater mid
            exact ⟨_, line', .cons ⟨line, rfl⟩ halike,
              hfirst.append (Lexes.nil.lexesTo.append hlexes)⟩

end Token

end ConversionClosure
