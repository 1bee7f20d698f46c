/-
Runs of tokens whose brackets match.

`Balanced` tells such runs by their shape: a token that is no bracket, or a pair of brackets of
one kind around a balanced run, and then a balanced run again.  Whatever passes over brackets by
counting them passes over a balanced run and ends where it would have ended without it.  The
matching of brackets, which also looks at their kinds, does so too, and the tokens in which it finds
no fault are balanced.
-/
import ConversionClosure.Proofs.Lexing
import ConversionClosure.Token.Run

namespace ConversionClosure

namespace Token

variable {line : Nat} {a b : String}

@[simp] theorem kind_mark : (mark line a).kind = .punct := rfl

@[simp] theorem kind_name : (name line a).kind = .ident := rfl

@[simp] theorem text_mark : (mark line a).text = a := rfl

@[simp] theorem text_name : (name line a).text = a := rfl

@[simp] theorem line_name : (name line a).line = line := rfl

@[simp] theorem isPunct_mark : (mark line a).isPunct b = (a == b) := rfl

@[simp] theorem isPunct_name : (name line a).isPunct b = false := rfl

@[simp] theorem isIdent_mark : (mark line a).isIdent b = false := rfl

@[simp] theorem isIdent_name : (name line a).isIdent b = (a == b) := rfl

theorem kind_of_isPunct {t : Token} {text : String} (h : t.isPunct text = true) :
    t.kind = .punct := by
  rw [Token.isPunct, Bool.and_eq_true] at h
  exact eq_of_beq h.1

theorem kind_of_isIdent {t : Token} {text : String} (h : t.isIdent text = true) :
    t.kind = .ident := by
  rw [Token.isIdent, Bool.and_eq_true] at h
  exact eq_of_beq h.1

/-- The token neither opens nor closes a bracket. -/
def IsInner (t : Token) : Prop := t.opens? = none ∧ t.closes? = none

theorem isInner_of_kind_ne {t : Token} (h : t.kind ≠ .punct) : t.IsInner :=
  ⟨if_neg h, if_neg h⟩

theorem isInner_mark {text : String} (hopen : Bracket.ofOpener? text = none)
    (hclose : Bracket.ofCloser? text = none) : (mark line text).IsInner := ⟨hopen, hclose⟩

theorem isInner_name {text : String} : (name line text).IsInner := isInner_of_kind_ne (by simp)

theorem isOpener_of_opens? {t : Token} {k : Bracket} (h : t.opens? = some k) :
    t.isOpener = true := by
  rw [isOpener, h, Option.isSome_some]

theorem isCloser_of_closes? {t : Token} {k : Bracket} (h : t.closes? = some k) :
    t.isCloser = true := by
  rw [isCloser, h, Option.isSome_some]

theorem IsInner.isOpener {t : Token} (h : t.IsInner) : t.isOpener = false := by
  rw [Token.isOpener, h.1, Option.isSome_none]

theorem IsInner.isCloser {t : Token} (h : t.IsInner) : t.isCloser = false := by
  rw [Token.isCloser, h.2, Option.isSome_none]

/-- No token closes one bracket and opens another. -/
theorem opens?_of_closes? {t : Token} {k : Bracket} (h : t.closes? = some k) : t.opens? = none := by
  unfold closes? at h
  split at h
  · rename_i hkind
    rw [opens?, if_pos hkind]
    unfold Bracket.ofCloser? at h
    split at h
    · rename_i htext
      rw [htext]
      decide
    split at h
    · rename_i htext
      rw [htext]
      decide
    split at h
    · rename_i htext
      rw [htext]
      decide
    · cases h
  · cases h

theorem isOpener_of_closes? {t : Token} {k : Bracket} (h : t.closes? = some k) :
    t.isOpener = false := by
  rw [isOpener, opens?_of_closes? h, Option.isSome_none]

end Token

/-- The brackets of the run match. -/
inductive Balanced : List Token → Prop
  | nil : Balanced []
  | inner {t : Token} {ts : List Token} (ht : t.IsInner) (h : Balanced ts) : Balanced (t :: ts)
  | group {o c : Token} {k : Bracket} {inner ts : List Token} (ho : o.opens? = some k)
      (hc : c.closes? = some k) (hinner : Balanced inner) (h : Balanced ts) :
      Balanced (o :: inner ++ c :: ts)

namespace Balanced

variable {o c : Token} {k : Bracket} {ts us inner rest : List Token}

theorem append (h : Balanced ts) (h' : Balanced us) : Balanced (ts ++ us) := by
  induction h with
  | nil => exact h'
  | inner ht _ ih => exact .inner ht ih
  | group ho hc hinner _ _ ih =>
      rw [List.append_assoc]
      exact .group ho hc hinner ih

theorem singleton {t : Token} (h : t.IsInner) : Balanced [t] := .inner h .nil

/-- A pair of brackets around a balanced run. -/
theorem bracketed (ho : o.opens? = some k) (hc : c.closes? = some k) (h : Balanced inner) :
    Balanced (o :: inner ++ [c]) := .group ho hc h .nil

/-! ### Passing over balanced runs -/

/-- Puts a run in front of the first half of a split. -/
def ahead (run : List Token) (split : List Token × List Token) : List Token × List Token :=
  (run ++ split.1, split.2)

theorem closing_append (h : Balanced ts) (depth : Nat) (rest : List Token) :
    Run.closing (depth + 1) (ts ++ rest) = (Run.closing (depth + 1) rest).map (ahead ts) := by
  induction h generalizing depth rest with
  | nil =>
      rw [List.nil_append]
      cases Run.closing (depth + 1) rest <;> rfl
  | inner ht _ ih =>
      rw [List.cons_append, Run.closing, ht.isOpener, ht.isCloser]
      simp only [Bool.false_eq_true, if_false, ih, Option.map_map]
      rfl
  | group ho hc _ _ ihinner ih =>
      rw [List.append_assoc, List.cons_append, Run.closing,
        if_pos (Token.isOpener_of_opens? ho), ihinner, List.cons_append, Run.closing,
        Token.isOpener_of_closes? hc, Token.isCloser_of_closes? hc, Nat.add_sub_cancel]
      have hdepth : ¬ depth + 1 + 1 ≤ 1 := by omega
      simp only [hdepth, Bool.false_eq_true, if_true, if_false, ih]
      cases Run.closing (depth + 1) rest with
      | none => rfl
      | some split => simp [ahead, Run.onto]

/-- A group is taken off whole. -/
theorem group?_append (ho : o.opens? = some k) (hc : c.closes? = some k) (h : Balanced inner) :
    Run.group? (o :: (inner ++ c :: rest)) = some (o :: (inner ++ [c]), rest) := by
  have hclose : Run.closing 1 (c :: rest) = some ([c], rest) := by
    rw [Run.closing, Token.isOpener_of_closes? hc, Token.isCloser_of_closes? hc]
    simp
  rw [Run.group?, if_pos (Token.isOpener_of_opens? ho), closing_append h 0, hclose]
  rfl

@[simp] theorem inside_group : Run.inside (o :: (inner ++ [c])) = inner := by
  simp [Run.inside]

theorem afterItem_append (h : Balanced ts) (depth : Nat) (braces : Bool) (rest : List Token) :
    Run.afterItem (depth + 1) braces (ts ++ rest) = Run.afterItem (depth + 1) braces rest := by
  induction h generalizing depth braces rest with
  | nil => rfl
  | inner ht _ ih =>
      rw [List.cons_append, Run.afterItem, ht.isOpener, ht.isCloser, ← ih depth braces rest]
      simp
  | group ho hc _ _ ihinner ih =>
      rw [List.append_assoc, List.cons_append, Run.afterItem,
        if_pos (Token.isOpener_of_opens? ho), if_neg (by omega), ihinner, List.cons_append,
        Run.afterItem, Token.isOpener_of_closes? hc, Token.isCloser_of_closes? hc,
        ← ih depth braces rest]
      simp

/-- An item ends with its brace group. -/
theorem afterItem_braces (ho : o.opens? = some .curly) (hc : c.closes? = some .curly)
    (h : Balanced inner) : Run.afterItem 0 false (o :: (inner ++ c :: rest)) = rest := by
  rw [Run.afterItem, if_pos (Token.isOpener_of_opens? ho), ho,
    afterItem_append h 0, Run.afterItem, Token.isOpener_of_closes? hc,
    Token.isCloser_of_closes? hc]
  simp

/-! ### Matching the brackets of a text -/

end Balanced

/-- The run is balanced, and if its first token has the place `index`, these are the places of its
groups, in the order in which they are closed. -/
inductive Grouped : (index : Nat) → List Token → List (Nat × Nat) → Prop
  | nil {index : Nat} : Grouped index [] []
  | inner {index : Nat} {t : Token} {ts : List Token} {pairs : List (Nat × Nat)} (ht : t.IsInner)
      (h : Grouped (index + 1) ts pairs) : Grouped index (t :: ts) pairs
  | group {index : Nat} {o c : Token} {k : Bracket} {inner ts : List Token}
      {before after : List (Nat × Nat)} (ho : o.opens? = some k) (hc : c.closes? = some k)
      (hinner : Grouped (index + 1) inner before)
      (h : Grouped (index + 1 + inner.length + 1) ts after) :
      Grouped index (o :: inner ++ c :: ts)
        (before ++ (index, index + 1 + inner.length) :: after)

theorem Grouped.balanced {index : Nat} {ts : List Token} {pairs : List (Nat × Nat)}
    (h : Grouped index ts pairs) : Balanced ts := by
  induction h with
  | nil => exact .nil
  | inner ht _ ih => exact .inner ht ih
  | group ho hc _ _ ihinner ih => exact .group ho hc ihinner ih

/-- The matching of brackets passes over a balanced run and gives its groups. -/
theorem Grouped.groupsFrom_append {index : Nat} {ts : List Token} {pairs : List (Nat × Nat)}
    (h : Grouped index ts pairs) (stack : List Opening) (rest : List Token) :
    groupsFrom index stack (ts ++ rest) =
      (groupsFrom (index + ts.length) stack rest).map (pairs ++ ·) := by
  induction h generalizing stack rest with
  | @nil index =>
      simp only [List.nil_append, List.length_nil, Nat.add_zero]
      cases groupsFrom index stack rest with
      | error fault => rfl
      | ok pairs => rfl
  | inner ht _ ih =>
      rw [List.cons_append, groupsFrom, ht.1, ht.2]
      simp only
      rw [ih, List.length_cons, Nat.add_assoc, Nat.add_comm 1]
  | @group index o c k inner ts before after ho hc _ _ ihinner ih =>
      have hlength : index + (o :: inner ++ c :: ts).length =
          index + 1 + inner.length + 1 + ts.length := by
        simp only [List.length_append, List.length_cons]
        omega
      rw [List.append_assoc, List.cons_append, groupsFrom, ho]
      simp only
      rw [List.cons_append, ihinner, groupsFrom, Token.opens?_of_closes? hc, hc]
      simp only [if_true]
      rw [ih, hlength]
      cases groupsFrom (index + 1 + inner.length + 1 + ts.length) stack rest with
      | error fault => rfl
      | ok pairs => simp [Except.map]

namespace Balanced

variable {o c : Token} {k : Bracket} {ts us inner rest : List Token}

theorem exists_grouped (h : Balanced ts) (index : Nat) : ∃ pairs, Grouped index ts pairs := by
  induction h generalizing index with
  | nil => exact ⟨[], .nil⟩
  | inner ht _ ih =>
      obtain ⟨pairs, hpairs⟩ := ih (index + 1)
      exact ⟨pairs, .inner ht hpairs⟩
  | @group o c k inner ts ho hc _ _ ihinner ih =>
      obtain ⟨before, hbefore⟩ := ihinner (index + 1)
      obtain ⟨after, hafter⟩ := ih (index + 1 + inner.length + 1)
      exact ⟨_, .group ho hc hbefore hafter⟩

theorem groupsFrom_append (h : Balanced ts) (index : Nat) (stack : List Opening)
    (rest : List Token) : ∃ pairs, groupsFrom index stack (ts ++ rest) =
      (groupsFrom (index + ts.length) stack rest).map (pairs ++ ·) := by
  obtain ⟨pairs, hpairs⟩ := h.exists_grouped index
  exact ⟨pairs, hpairs.groupsFrom_append stack rest⟩

/-- Of a balanced run and a group behind it, the group is closed last. -/
theorem groupsFrom_append_group (h : Balanced ts) (ho : o.opens? = some k)
    (hc : c.closes? = some k) (hinner : Balanced inner) :
    ∃ pairs, groupsFrom 0 [] (ts ++ (o :: inner ++ [c])) =
      .ok (pairs ++ [(ts.length, ts.length + 1 + inner.length)]) := by
  obtain ⟨before, hbefore⟩ := h.exists_grouped 0
  obtain ⟨within, hwithin⟩ := hinner.exists_grouped (0 + ts.length + 1)
  have hgroup := (Grouped.group ho hc hwithin .nil).groupsFrom_append [] []
  rw [List.append_nil] at hgroup
  refine ⟨before ++ within, ?_⟩
  rw [hbefore.groupsFrom_append, hgroup, groupsFrom, Nat.zero_add]
  simp [Except.map]

/-- Where a group ends the tokens, they decide where it begins, since the last token ends no other
group. -/
theorem append_group_inj {o' c' : Token} {k' : Bracket} {ts' inner' : List Token}
    (h : Balanced ts) (ho : o.opens? = some k) (hc : c.closes? = some k) (hinner : Balanced inner)
    (h' : Balanced ts') (ho' : o'.opens? = some k') (hc' : c'.closes? = some k')
    (hinner' : Balanced inner')
    (heq : ts ++ (o :: inner ++ [c]) = ts' ++ (o' :: inner' ++ [c'])) :
    ts = ts' ∧ inner = inner' := by
  obtain ⟨pairs, hpairs⟩ := h.groupsFrom_append_group ho hc hinner
  obtain ⟨pairs', hpairs'⟩ := h'.groupsFrom_append_group ho' hc' hinner'
  rw [heq, hpairs'] at hpairs
  have hlast := congrArg List.getLast? (Except.ok.inj hpairs)
  rw [List.getLast?_concat, List.getLast?_concat, Option.some.injEq, Prod.mk.injEq] at hlast
  obtain ⟨hts, hgroup⟩ := List.append_inj heq hlast.1.symm
  exact ⟨hts, (List.append_inj' (List.cons.inj hgroup).2 rfl).1⟩

/-- A text whose tokens are balanced has no fault. -/
theorem tokenize_eq {text : String} (h : Balanced ts) (hlex : lex text = .ok ts) :
    tokenize text = .ok ts := by
  obtain ⟨pairs, hpairs⟩ := h.groupsFrom_append 0 [] []
  rw [List.append_nil] at hpairs
  rw [tokenize, hlex]
  show (groupsFrom 0 [] ts).bind _ = _
  rw [hpairs]
  rfl

/-! ### What a balanced run begins with -/

variable {t : Token}

theorem of_cons (h : Balanced (t :: ts)) (ht : t.isOpener = false) : t.IsInner ∧ Balanced ts := by
  generalize hcons : t :: ts = us at h
  cases h with
  | nil => cases hcons
  | inner hinner h =>
      cases hcons
      exact ⟨hinner, h⟩
  | group ho _ _ _ =>
      obtain ⟨rfl, -⟩ := List.cons.inj hcons
      rw [Token.isOpener_of_opens? ho] at ht
      cases ht

/-- An opening bracket begins a group. -/
theorem exists_group (h : Balanced (t :: ts)) (ht : t.isOpener = true) :
    ∃ k inner c us, t.opens? = some k ∧ c.closes? = some k ∧ Balanced inner ∧
      ts = inner ++ c :: us ∧ Balanced us := by
  generalize hcons : t :: ts = us at h
  cases h with
  | nil => cases hcons
  | inner hinner _ =>
      cases hcons
      rw [hinner.isOpener] at ht
      cases ht
  | group ho hc hinner h =>
      obtain ⟨rfl, rfl⟩ := List.cons.inj hcons
      exact ⟨_, _, _, _, ho, hc, hinner, rfl, h⟩

end Balanced

/-! ### Brackets that match -/

/-- The tokens close some open brackets in turn, and behind the last one they are balanced. -/
inductive Closing : List Bracket → List Token → Prop
  | nil {ts : List Token} (h : Balanced ts) : Closing [] ts
  | cons {k : Bracket} {ks : List Bracket} {c : Token} {inner ts : List Token}
      (hinner : Balanced inner) (hc : c.closes? = some k) (h : Closing ks ts) :
      Closing (k :: ks) (inner ++ c :: ts)

namespace Closing

variable {k : Bracket} {ks : List Bracket} {t : Token} {ts : List Token}

theorem inner (ht : t.IsInner) (h : Closing ks ts) : Closing ks (t :: ts) := by
  cases h with
  | nil h => exact .nil (.inner ht h)
  | cons hinner hc h => exact .cons (.inner ht hinner) hc h

theorem opener (ht : t.opens? = some k) (h : Closing (k :: ks) ts) : Closing ks (t :: ts) := by
  cases h with
  | @cons _ _ c inner _ hinner hc h =>
      cases h with
      | nil h => exact .nil (.group ht hc hinner h)
      | @cons _ _ c' inner' us hinner' hc' h =>
          have hgroup : Balanced (t :: inner ++ c :: inner') := .group ht hc hinner hinner'
          have happend : t :: (inner ++ c :: (inner' ++ c' :: us)) =
              (t :: inner ++ c :: inner') ++ c' :: us := by simp
          rw [happend]
          exact .cons hgroup hc' h

end Closing

theorem closing_of_groupsFrom {ts : List Token} {index : Nat} {stack : List Opening}
    {pairs : List (Nat × Nat)} (h : groupsFrom index stack ts = .ok pairs) :
    Closing (stack.map Opening.bracket) ts := by
  induction ts generalizing index stack pairs with
  | nil =>
      cases stack with
      | nil => exact .nil .nil
      | cons o stack => cases h
  | cons t ts ih =>
      rw [groupsFrom] at h
      cases ho : t.opens? with
      | some k =>
          rw [ho] at h
          exact (ih h).opener ho
      | none =>
          cases hc : t.closes? with
          | none =>
              rw [ho, hc] at h
              exact (ih h).inner ⟨ho, hc⟩
          | some k =>
              rw [ho, hc] at h
              cases stack with
              | nil => cases h
              | cons o stack =>
                  dsimp only at h
                  split at h
                  · rename_i hmatch
                    cases hmore : groupsFrom (index + 1) stack ts with
                    | error fault =>
                        rw [hmore] at h
                        cases h
                    | ok more => exact .cons .nil (hmatch ▸ hc) (ih hmore)
                  · cases h

/-- **The brackets match when no fault is found.** -/
theorem Balanced.of_groupsFrom {ts : List Token} {pairs : List (Nat × Nat)}
    (h : groupsFrom 0 [] ts = .ok pairs) : Balanced ts := by
  cases closing_of_groupsFrom h with
  | nil h => exact h

end ConversionClosure
