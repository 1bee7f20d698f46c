/-
How far the lexer looks ahead.

What the lexer makes of the characters at hand may depend on the one or two behind them.  A
character that no token goes on with and no literal or comment is announced by, such as a closing
bracket or the end of a line, keeps the two sides apart: a piece that has its end in front of it is
the same piece whatever follows.  The only piece that would go on is a line comment, and that one
ends with the line.
-/
import ConversionClosure.Proofs.Tokens

namespace ConversionClosure

open Text

/-- A character that no token goes on with, and that makes no comment or literal of what stands in
front of it. -/
def Text.isStop (c : Char) : Bool := isSeparator c && !(['/', '*', ':', '>'].contains c)

theorem Text.isStop_iff {c : Char} : isStop c = true ↔
    isNameChar c = false ∧ c ∉ ['"', '\'', '#', '/', '*', ':', '>'] := by
  simp [isStop, isSeparator, and_assoc]

namespace Piece

variable {c d e : Char} {cs rest more : List Char} {p : Char → Bool}

/-- Two branches on one condition, each of which leads from the one side to the other. -/
theorem of_branch {α β : Type} {p : Prop} [Decidable p] {x y a : α} {x' y' b : β}
    (hthen : p → x = a → x' = b) (helse : ¬ p → y = a → y' = b)
    (h : (if p then x else y) = a) : (if p then x' else y') = b := by
  split at h
  · rename_i hp
    exact (if_pos hp).trans (hthen hp h)
  · rename_i hp
    exact (if_neg hp).trans (helse hp h)

/-! ### What stands behind a split -/

theorem takeWhile_append_stop (hd : p d = false) (cs more : List Char) :
    (cs ++ d :: more).takeWhile p = cs.takeWhile p := by
  induction cs with
  | nil => simp [hd]
  | cons c cs ih => simp only [List.cons_append, List.takeWhile_cons, ih]

theorem dropWhile_append_stop (hd : p d = false) (cs more : List Char) :
    (cs ++ d :: more).dropWhile p = cs.dropWhile p ++ d :: more := by
  induction cs with
  | nil => simp [hd]
  | cons c cs ih =>
      simp only [List.cons_append, List.dropWhile_cons, ih]
      split
      · rfl
      · rfl

/-- A stretch that has its end does not depend on what stands behind. -/
theorem takeWhile_append_of_dropWhile (h : cs.dropWhile p = c :: rest) (more : List Char) :
    (cs ++ more).takeWhile p = cs.takeWhile p ∧ (cs ++ more).dropWhile p = c :: rest ++ more := by
  induction cs with
  | nil => simp at h
  | cons a cs ih =>
      rw [List.dropWhile_cons] at h
      simp only [List.cons_append, List.takeWhile_cons, List.dropWhile_cons]
      split at h
      · rename_i ha
        simp [ha, ih h]
      · rename_i ha
        obtain ⟨rfl, rfl⟩ := List.cons.inj h
        simp [ha]

theorem not_mem_takeWhile_ne (d : Char) (cs : List Char) : d ∉ cs.takeWhile (· != d) := by
  intro hd
  simpa using List.all_eq_true.mp (List.all_takeWhile (p := (· != d)) (l := cs)) d hd

theorem head?_append_stop (he : e ≠ d) (cs more : List Char) :
    ((cs ++ d :: more).head? == some e) = (cs.head? == some e) := by
  cases cs with
  | nil => simpa using Ne.symm he
  | cons c cs => rfl

/-- A character that a text does not hold keeps that text from starting another one. -/
theorem isPrefixOf_append_stop {start : List Char} (hd : d ∉ start) (cs more : List Char) :
    start.isPrefixOf (cs ++ d :: more) = start.isPrefixOf cs := by
  induction start generalizing cs with
  | nil => simp
  | cons a start ih =>
      rw [List.mem_cons, not_or] at hd
      cases cs with
      | nil => simp [List.isPrefixOf, Ne.symm hd.1]
      | cons c cs => simp [List.isPrefixOf, ih hd.2]

/-! ### Literals and comments that have their end -/

theorem stringRest_append_more {split : List Char × List Char} (h : stringRest cs = some split)
    (more : List Char) : stringRest (cs ++ more) = some (split.1, split.2 ++ more) := by
  fun_induction stringRest cs generalizing split with
  | case1 => cases h
  | case2 => cases h
  | case3 c cs ih =>
      obtain ⟨inner, hinner, rfl⟩ := Option.map_eq_some_iff.mp h
      rw [List.cons_append, List.cons_append, stringRest, ih hinner]
      rfl
  | case4 =>
      cases h
      rfl
  | case5 c cs hlone hescape hquote ih =>
      obtain ⟨inner, hinner, rfl⟩ := Option.map_eq_some_iff.mp h
      have hslash : c ≠ '\\' := by
        rintro rfl
        cases cs with
        | nil => exact hlone rfl rfl
        | cons d cs => exact hescape d cs rfl rfl
      rw [List.cons_append, stringRest, ih hinner]
      · rfl
      · exact fun hc _ => hslash hc
      · exact fun _ _ hc _ => hslash hc
      · exact hquote

theorem commentRest_append_more {depth : Nat} {split : List Char × List Char}
    (h : commentRest depth cs = some split) (more : List Char) :
    commentRest depth (cs ++ more) = some (split.1, split.2 ++ more) := by
  fun_induction commentRest depth cs generalizing split with
  | case1 =>
      cases h
      rw [commentRest]
  | case2 => cases h
  | case3 depth cs ih | case4 depth cs ih =>
      obtain ⟨inner, hinner, rfl⟩ := Option.map_eq_some_iff.mp h
      rw [List.cons_append, List.cons_append, commentRest, ih hinner]
      rfl
  | case5 depth c cs hopen hclose ih =>
      obtain ⟨inner, hinner, rfl⟩ := Option.map_eq_some_iff.mp h
      -- the comment goes on, so the character behind this one is still in it
      cases cs with
      | nil => cases hinner
      | cons d cs =>
          rw [List.cons_append, commentRest, ih hinner]
          · rfl
          · intro _ hc hcs
            exact hopen cs hc (by rw [(List.cons.inj hcs).1])
          · intro _ hc hcs
            exact hclose cs hc (by rw [(List.cons.inj hcs).1])

theorem rawStringRest_append_stop (hd : d ≠ '#') {hashes : Nat} {split : List Char × List Char}
    (h : rawStringRest hashes cs = some split) (more : List Char) :
    rawStringRest hashes (cs ++ d :: more) = some (split.1, split.2 ++ d :: more) := by
  induction cs generalizing split with
  | nil => cases h
  | cons c cs ih =>
      rw [rawStringRest] at h
      rw [List.cons_append, rawStringRest,
        isPrefixOf_append_stop fun hmem => hd (List.eq_of_mem_replicate hmem)]
      split at h
      · rename_i hend
        cases h
        have hlength : hashes ≤ cs.length := by
          simpa using (List.isPrefixOf_iff_prefix.mp hend.2).length_le
        rw [if_pos hend, List.drop_append_of_le_length hlength]
      · rename_i hend
        obtain ⟨inner, hinner, rfl⟩ := Option.map_eq_some_iff.mp h
        rw [if_neg hend, ih hinner]
        rfl

theorem stringLiteral_append_more {front : List Char} {ps : List Piece}
    (h : stringLiteral front cs = .ok (ps, rest)) (more : List Char) :
    stringLiteral front (cs ++ more) = .ok (ps, rest ++ more) := by
  unfold stringLiteral at h ⊢
  cases hrest : stringRest cs with
  | none =>
      rw [hrest] at h
      cases h
  | some split =>
      rw [hrest] at h
      rw [stringRest_append_more hrest]
      cases h
      rfl

theorem rawStringLiteral_append_stop (hd : d ≠ '#') {front : List Char} {ps : List Piece}
    (h : rawStringLiteral front cs = .ok (ps, rest)) (more : List Char) :
    rawStringLiteral front (cs ++ d :: more) = .ok (ps, rest ++ d :: more) := by
  unfold rawStringLiteral at h ⊢
  simp only at h ⊢
  split at h
  · rename_i body hdrop
    obtain ⟨htake, hdrop'⟩ := takeWhile_append_of_dropWhile hdrop (d :: more)
    rw [htake, hdrop', List.cons_append]
    simp only
    cases hrest : rawStringRest (cs.takeWhile (· == '#')).length body with
    | none =>
        rw [hrest] at h
        cases h
    | some split =>
        rw [hrest] at h
        rw [rawStringRest_append_stop hd hrest]
        cases h
        rfl
  · cases h

theorem quoteRest_name (hslash : c ≠ '\\') (htick : cs.head? ≠ some '\'') :
    quoteRest (c :: cs) =
      if isNameStart c then .ok (.lifetime, c :: cs.takeWhile isNameChar, cs.dropWhile isNameChar)
      else .error .strayQuote := by
  cases cs with
  | nil =>
      rw [quoteRest]
      · exact fun h _ => hslash h
      · simp
      · simp
  | cons d cs =>
      rw [quoteRest]
      · simp
      · exact fun _ _ h _ => hslash h
      · intro _ hcs
        exact htick (congrArg List.head? hcs)

theorem quoteRest_append_stop (hd : isStop d = true) {kind : TokenKind} {body : List Char}
    (h : quoteRest cs = .ok (kind, body, rest)) (more : List Char) :
    quoteRest (cs ++ d :: more) = .ok (kind, body, rest ++ d :: more) := by
  obtain ⟨hname, hmarks⟩ := isStop_iff.mp hd
  unfold quoteRest at h
  split at h
  · cases h
  · rename_i c cs
    split at h
    · rename_i last after hdrop
      cases h
      obtain ⟨htake, hdrop'⟩ := takeWhile_append_of_dropWhile hdrop (d :: more)
      rw [List.cons_append, List.cons_append, quoteRest, hdrop', htake]
      rfl
    · cases h
  · rename_i c after hne
    cases h
    rw [List.cons_append, List.cons_append, quoteRest]
    exact hne
  · rename_i c cs hlone hescape htick
    split at h
    · rename_i hstart
      cases h
      have hslash : c ≠ '\\' := by
        rintro rfl
        revert hstart
        decide
      have hhead : (cs ++ d :: more).head? ≠ some '\'' := by
        cases cs with
        | nil =>
            intro hfirst
            obtain rfl : d = '\'' := by simpa using hfirst
            simp at hmarks
        | cons a cs =>
            intro ha
            exact htick cs (by simpa using ha)
      rw [List.cons_append, quoteRest_name hslash hhead, if_pos hstart,
        takeWhile_append_stop hname, dropWhile_append_stop hname]
    · cases h
  · cases h

theorem quote_append_stop (hd : isStop d = true) {ps : List Piece} (h : quote cs = .ok (ps, rest))
    (more : List Char) : quote (cs ++ d :: more) = .ok (ps, rest ++ d :: more) := by
  unfold quote at h ⊢
  obtain ⟨⟨kind, body, after⟩, hrest, hsplit⟩ := exists_of_map_eq_ok h
  rw [quoteRest_append_stop hd hrest]
  cases hsplit
  rfl

theorem byteLiteral_append_stop (hd : isStop d = true) {ps : List Piece}
    (h : byteLiteral cs = .ok (ps, rest)) (more : List Char) :
    byteLiteral (cs ++ d :: more) = .ok (ps, rest ++ d :: more) := by
  unfold byteLiteral at h ⊢
  obtain ⟨⟨kind, body, after⟩, hrest, hsplit⟩ := exists_of_map_eq_ok h
  rw [quoteRest_append_stop hd hrest]
  cases hsplit
  rfl

/-! ### Names and marks -/

theorem opensRawString_append_stop (hd : isStop d = true) (cs more : List Char) :
    opensRawString (cs ++ d :: more) = opensRawString cs := by
  obtain ⟨-, hmarks⟩ := isStop_iff.mp hd
  simp only [List.mem_cons, List.not_mem_nil, or_false, not_or] at hmarks
  rcases cs with _ | ⟨c, _ | ⟨e, cs⟩⟩
  · simp [opensRawString, hmarks]
  · by_cases hquote : c = '"'
    · subst hquote
      rfl
    by_cases hhash : c = '#'
    · subst hhash
      simp [opensRawString, hmarks]
    · simp [opensRawString, hquote, hhash]
  · by_cases hquote : c = '"'
    · subst hquote
      rfl
    by_cases hhash : c = '#'
    · subst hhash
      rfl
    · simp [opensRawString, hquote, hhash]

theorem rawName?_append_stop (hd : isStop d = true) (cs more : List Char) :
    rawName? (cs ++ d :: more) = (rawName? cs).map fun r => (r.1, r.2 ++ d :: more) := by
  obtain ⟨hname, hmarks⟩ := isStop_iff.mp hd
  simp only [List.mem_cons, List.not_mem_nil, or_false, not_or] at hmarks
  have hstart : isNameStart d = false := by
    cases hcase : isNameStart d with
    | false => rfl
    | true => simp [isNameChar_of_isNameStart hcase] at hname
  rcases cs with _ | ⟨c, _ | ⟨e, cs⟩⟩
  · simp [rawName?, hmarks]
  · by_cases hhash : c = '#'
    · subst hhash
      simp [rawName?, hstart]
    · simp [rawName?, hhash]
  · by_cases hhash : c = '#'
    · subst hhash
      simp only [rawName?, List.cons_append]
      split
      · rfl
      · rfl
    · simp [rawName?, hhash]

theorem word_append_stop (hd : isStop d = true) {ps : List Piece} (h : word c cs = .ok (ps, rest))
    (more : List Char) : word c (cs ++ d :: more) = .ok (ps, rest ++ d :: more) := by
  obtain ⟨hname, hmarks⟩ := isStop_iff.mp hd
  simp only [List.mem_cons, List.not_mem_nil, or_false, not_or] at hmarks
  obtain ⟨hquote, htick, hhash, -⟩ := hmarks
  cases cs with
  | nil =>
      have hletter : d ≠ 'r' := by
        rintro rfl
        revert hname
        decide
      have hopens : opensRawString (d :: more) = false := opensRawString_append_stop hd [] more
      have hraw : rawName? (d :: more) = none := rawName?_append_stop hd [] more
      simp [word, opensRawString, rawName?] at h
      obtain ⟨rfl, rfl⟩ := h
      simp [word, hopens, hraw, hname, hquote, htick, hletter]
  | cons e ds =>
      have htail : ∀ a : Char, a ≠ d → ((ds ++ d :: more).head? == some a) = (ds.head? == some a) :=
        fun a ha => head?_append_stop ha ds more
      have hopens := opensRawString_append_stop hd (e :: ds) more
      have hraw? := rawName?_append_stop hd (e :: ds) more
      have htake := takeWhile_append_stop hname (e :: ds) more
      have hdrop := dropWhile_append_stop hname (e :: ds) more
      rw [List.cons_append] at hopens hraw? htake hdrop ⊢
      simp only [word, Bool.and_eq_true, List.head?_cons, List.tail_cons, hopens, hraw?, htake,
        hdrop, htail '"' (Ne.symm hquote), htail '#' (Ne.symm hhash)] at h ⊢
      refine of_branch (fun _ h => stringLiteral_append_more h _) (fun _ h => ?_) h
      refine of_branch (fun _ h => byteLiteral_append_stop hd h more) (fun _ h => ?_) h
      refine of_branch (fun _ h => rawStringLiteral_append_stop hhash h more) (fun _ h => ?_) h
      refine of_branch (fun _ h => rawStringLiteral_append_stop hhash h more) (fun _ h => ?_) h
      by_cases hr : (c == 'r') = true
      · rw [if_pos hr] at h ⊢
        cases hrest : rawName? (e :: ds) with
        | none =>
            rw [hrest] at h
            cases h
            rfl
        | some r =>
            rw [hrest] at h
            cases h
            simp only [Option.map_some, takeWhile_append_stop hname, dropWhile_append_stop hname]
      · rw [if_neg hr] at h ⊢
        cases h
        rfl

theorem mark_append_stop (hd : isStop d = true) {ps : List Piece} (h : mark c cs = (ps, rest))
    (more : List Char) : mark c (cs ++ d :: more) = (ps, rest ++ d :: more) := by
  obtain ⟨-, hmarks⟩ := isStop_iff.mp hd
  simp only [List.mem_cons, List.not_mem_nil, or_false, not_or] at hmarks
  cases cs with
  | nil =>
      cases h
      simp [mark, hmarks]
  | cons e cs =>
      rw [mark] at h
      rw [List.cons_append, mark]
      refine of_branch ?_ ?_ h
      · intro _ h
        cases h
        rfl
      · intro _ h
        cases h
        rfl

/-- **What the lexer takes in one step does not depend on a stop that stands behind**, except that a
line comment is only stopped by the end of its line. -/
theorem next_append_stop (hd : isStop d = true) {ps : List Piece} (h : next c cs = .ok (ps, rest))
    (hline : d = '\n' ∨ ∀ text, filler .lineComment text ∉ ps) (more : List Char) :
    next c (cs ++ d :: more) = .ok (ps, rest ++ d :: more) := by
  obtain ⟨hname, hmarks⟩ := isStop_iff.mp hd
  simp only [List.mem_cons, List.not_mem_nil, or_false, not_or] at hmarks
  obtain ⟨-, -, -, hslash, hstar, -⟩ := hmarks
  unfold next at h ⊢
  rw [head?_append_stop (Ne.symm hslash), head?_append_stop (Ne.symm hstar),
    takeWhile_append_stop hname, dropWhile_append_stop hname]
  refine of_branch ?_ (fun _ h => ?_) h
  · intro _ h
    cases h
    rfl
  refine of_branch ?_ (fun _ h => ?_) h
  · intro _ h
    cases h
    obtain rfl : d = '\n' := hline.resolve_right fun hno => hno _ (List.mem_singleton_self _)
    rw [takeWhile_append_stop (by decide), dropWhile_append_stop (by decide)]
  refine of_branch ?_ (fun _ h => ?_) h
  · intro hblock h
    rw [Bool.and_eq_true] at hblock
    have htail : (cs ++ d :: more).tail = cs.tail ++ d :: more := by
      rw [eq_cons_of_head? hblock.2]
      rfl
    split at h
    · rename_i body after hrest
      rw [htail, commentRest_append_more hrest]
      cases h
      rfl
    · cases h
  refine of_branch (fun _ h => stringLiteral_append_more h _) (fun _ h => ?_) h
  refine of_branch (fun _ h => quote_append_stop hd h more) (fun _ h => ?_) h
  refine of_branch (fun _ h => word_append_stop hd h more) (fun _ h => ?_) h
  refine of_branch ?_ (fun _ h => ?_) h
  · intro _ h
    cases h
    rfl
  · rw [mark_append_stop hd (Except.ok.inj h)]

end Piece

end ConversionClosure
