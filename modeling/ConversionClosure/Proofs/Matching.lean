/-
Which brackets match.

`groups` goes over the tokens once and keeps the openers that are still open on a stack.  What is on
the stack is told here by the shape of the tokens before: `LeavesOpen` cuts them at the openers that
no closer behind them ends, and between two such openers they are balanced.  One more token keeps
that shape, or it is a closer that ends nothing, or one that would end an opener of another kind.

So the brackets match exactly when the tokens are balanced.  What is found then are the places of
the groups (`IsGroup`), and what is wrong otherwise is wrong at the first place where something can
be (`Faulty`).
-/
import ConversionClosure.Proofs.Balance
import Mathlib.Data.List.Basic
import Mathlib.Data.List.Induction

namespace ConversionClosure

variable {ts us : List Token} {pairs : List (Nat × Nat)} {stack : List Opening} {t : Token}
  {k : Bracket} {index : Nat} {fault : LexFault}

/-! ### Groups -/

/-- At the two places stand brackets of one kind, an opener and behind it a closer, with a balanced
run between them. -/
def IsGroup (ts : List Token) (i j : Nat) : Prop :=
  ∃ before o inner c after k, ts = before ++ o :: (inner ++ c :: after) ∧ i = before.length ∧
    j = i + 1 + inner.length ∧ o.opens? = some k ∧ c.closes? = some k ∧ Balanced inner

/-- More tokens in front move a group. -/
theorem IsGroup.append_left {i j : Nat} (h : IsGroup ts i j) (front : List Token) :
    IsGroup (front ++ ts) (front.length + i) (front.length + j) := by
  obtain ⟨before, o, inner, c, after, k, rfl, rfl, rfl, ho, hc, hinner⟩ := h
  refine ⟨front ++ before, o, inner, c, after, k, ?_, ?_, ?_, ho, hc, hinner⟩
  · rw [List.append_assoc]
  · rw [List.length_append]
  · omega

theorem IsGroup.append_right {i j : Nat} (h : IsGroup ts i j) (more : List Token) :
    IsGroup (ts ++ more) i j := by
  obtain ⟨before, o, inner, c, after, k, rfl, hi, hj, ho, hc, hinner⟩ := h
  exact ⟨before, o, inner, c, after ++ more, k, by simp, hi, hj, ho, hc, hinner⟩

/-- A place begins one group at most. -/
theorem IsGroup.unique {i j j' : Nat} (h : IsGroup ts i j) (h' : IsGroup ts i j') : j = j' := by
  obtain ⟨before, o, inner, c, after, k, rfl, rfl, rfl, ho, hc, hinner⟩ := h
  obtain ⟨before', o', inner', c', after', k', heq, hlength, rfl, ho', hc', hinner'⟩ := h'
  obtain ⟨-, hrest⟩ := List.append_inj heq hlength
  have hgroup := congrArg Run.group? hrest
  rw [hinner.group?_append ho hc, hinner'.group?_append ho' hc', Option.some.injEq,
    Prod.mk.injEq] at hgroup
  have hinners := congrArg List.length hgroup.1
  simp only [List.length_cons, List.length_append, List.length_nil] at hinners
  omega

namespace Grouped

theorem bounds (h : Grouped index ts pairs) :
    ∀ p ∈ pairs, index ≤ p.1 ∧ p.1 < p.2 ∧ p.2 < index + ts.length := by
  induction h with
  | nil => simp
  | inner _ _ ih =>
      intro p hp
      have hbounds := ih p hp
      rw [List.length_cons]
      omega
  | group _ _ _ _ ihinner ih =>
      intro p hp
      simp only [List.length_append, List.length_cons]
      rw [List.mem_append, List.mem_cons] at hp
      rcases hp with hp | rfl | hp
      · have hbounds := ihinner p hp
        omega
      · simp only
        omega
      · have hbounds := ih p hp
        omega

theorem isGroup (h : Grouped index ts pairs) :
    ∀ p ∈ pairs, ∃ i j, p = (index + i, index + j) ∧ IsGroup ts i j := by
  induction h with
  | nil => simp
  | @inner index t ts pairs _ _ ih =>
      intro p hp
      obtain ⟨i, j, rfl, hgroup⟩ := ih p hp
      refine ⟨1 + i, 1 + j, ?_, hgroup.append_left [t]⟩
      simp only [Nat.add_assoc]
  | @group index o c k inner ts before after ho hc hinner _ ihinner ih =>
      intro p hp
      rw [List.mem_append, List.mem_cons] at hp
      rcases hp with hp | rfl | hp
      · obtain ⟨i, j, rfl, hgroup⟩ := ihinner p hp
        have hmoved := (hgroup.append_left [o]).append_right (c :: ts)
        refine ⟨1 + i, 1 + j, ?_, hmoved⟩
        simp only [Nat.add_assoc]
      · exact ⟨0, 1 + inner.length, by simp only [Nat.add_zero, Nat.add_assoc],
          [], o, inner, c, ts, k, rfl, rfl, by omega, ho, hc, hinner.balanced⟩
      · obtain ⟨i, j, rfl, hgroup⟩ := ih p hp
        have hmoved := hgroup.append_left (o :: inner ++ [c])
        rw [List.append_assoc, List.singleton_append] at hmoved
        refine ⟨_, _, ?_, hmoved⟩
        simp only [List.length_append, List.length_cons, List.length_nil, Prod.mk.injEq]
        omega

/-- Every opener begins one group. -/
theorem openers (h : Grouped index ts pairs) :
    (pairs.map Prod.fst).Perm (ts.findIdxs Token.isOpener index) := by
  induction h with
  | nil => exact .nil
  | inner ht _ ih => rwa [List.findIdxs_cons, ht.isOpener, if_neg Bool.false_ne_true]
  | @group index o c k inner ts before after ho hc _ _ ihinner ih =>
      rw [List.map_append, List.map_cons, List.findIdxs_append, List.findIdxs_cons,
        List.findIdxs_cons, Token.isOpener_of_opens? ho, Token.isOpener_of_closes? hc,
        if_pos rfl, if_neg Bool.false_ne_true, List.length_cons]
      refine List.perm_middle.trans ((ihinner.append ?_).cons index)
      have hplace : index + (inner.length + 1) + 1 = index + 1 + inner.length + 1 := by omega
      rwa [hplace]

/-- Every closer ends one group. -/
theorem closers (h : Grouped index ts pairs) :
    (pairs.map Prod.snd).Perm (ts.findIdxs Token.isCloser index) := by
  induction h with
  | nil => exact .nil
  | inner ht _ ih => rwa [List.findIdxs_cons, ht.isCloser, if_neg Bool.false_ne_true]
  | @group index o c k inner ts before after ho hc _ _ ihinner ih =>
      have hopener : o.isCloser = false := by
        rw [Token.isCloser, Option.isSome_eq_false_iff, Option.isNone_iff_eq_none]
        by_contra hcloses
        obtain ⟨k', hk'⟩ := Option.ne_none_iff_exists'.mp hcloses
        rw [Token.opens?_of_closes? hk'] at ho
        cases ho
      rw [List.map_append, List.map_cons, List.findIdxs_append, List.findIdxs_cons,
        List.findIdxs_cons, hopener, Token.isCloser_of_closes? hc,
        if_pos rfl, if_neg Bool.false_ne_true, List.length_cons]
      have hplace : index + (inner.length + 1) = index + 1 + inner.length := by omega
      rw [hplace]
      exact ihinner.append (ih.cons _)

/-- Two groups lie apart, or one lies in the other. -/
theorem apart_or_inside (h : Grouped index ts pairs) :
    ∀ p ∈ pairs, ∀ q ∈ pairs, p.1 < q.1 → p.2 < q.1 ∨ q.2 < p.2 := by
  induction h with
  | nil => simp
  | inner _ _ ih => exact ih
  | group _ _ hinner h ihinner ih =>
      intro p hp q hq hlt
      rw [List.mem_append, List.mem_cons] at hp hq
      rcases hp with hp | rfl | hp
      · have hboundsp := hinner.bounds p hp
        rcases hq with hq | rfl | hq
        · exact ihinner p hp q hq hlt
        · simp only at hlt
          omega
        · have hboundsq := h.bounds q hq
          omega
      · rcases hq with hq | rfl | hq
        · have hboundsq := hinner.bounds q hq
          simp only at hlt ⊢
          omega
        · simp only at hlt
          omega
        · have hboundsq := h.bounds q hq
          simp only at hlt ⊢
          omega
      · have hboundsp := h.bounds p hp
        rcases hq with hq | rfl | hq
        · have hboundsq := hinner.bounds q hq
          omega
        · simp only at hlt
          omega
        · exact ih p hp q hq hlt

end Grouped

/-- The pairs are the groups of the tokens. -/
structure Matches (ts : List Token) (pairs : List (Nat × Nat)) : Prop where
  /-- Every opener has its place in front of one pair, and nothing else has. -/
  openers : pairs.map Prod.fst = ts.findIdxs Token.isOpener
  /-- Every closer has its place behind in one pair, and nothing else has. -/
  closers : (pairs.map Prod.snd).Perm (ts.findIdxs Token.isCloser)
  /-- The closer stands behind the opener and is of its kind, and what is between them matches. -/
  isGroup : ∀ p ∈ pairs, IsGroup ts p.1 p.2
  apart_or_inside : ∀ p ∈ pairs, ∀ q ∈ pairs, p.1 < q.1 → p.2 < q.1 ∨ q.2 < p.2

/-- What is matched is found where it begins. -/
theorem Matches.lookup_eq {i j : Nat} (h : Matches ts pairs) (hgroup : IsGroup ts i j) :
    pairs.lookup i = some j := by
  have hopener : i ∈ pairs.map Prod.fst := by
    obtain ⟨before, o, inner, c, after, k, rfl, rfl, -, ho, -, -⟩ := hgroup
    rw [h.openers, List.findIdxs_append, List.findIdxs_cons, Token.isOpener_of_opens? ho]
    simp
  obtain ⟨p, hp, hplace⟩ := List.mem_map.mp hopener
  have hsome : (pairs.lookup i).isSome := List.lookup_isSome_iff.mpr ⟨p, hp, by simp [hplace]⟩
  obtain ⟨j', hlookup⟩ := Option.isSome_iff_exists.mp hsome
  obtain ⟨before, after, hpairs, -⟩ := List.lookup_eq_some_iff.mp hlookup
  have hfound : IsGroup ts i j' := h.isGroup (i, j') (by simp [hpairs])
  rw [hlookup, hgroup.unique hfound]

/-- Groups in the order of their openers. -/
theorem Grouped.matches_mergeSort (h : Grouped 0 ts pairs) :
    Matches ts (pairs.mergeSort fun a b => a.1 ≤ b.1) := by
  have hperm := List.mergeSort_perm pairs fun a b => a.1 ≤ b.1
  have hsorted : (pairs.mergeSort fun a b => a.1 ≤ b.1).Pairwise fun a b => a.1 ≤ b.1 := by
    refine (List.pairwise_mergeSort ?_ ?_ pairs).imp of_decide_eq_true
    · intro a b c hab hbc
      simp only [decide_eq_true_eq] at hab hbc ⊢
      omega
    · intro a b
      simp only [Bool.or_eq_true, decide_eq_true_eq]
      omega
  refine ⟨?_, (hperm.map Prod.snd).trans h.closers, ?_, ?_⟩
  · refine List.Perm.eq_of_pairwise ?_ (List.pairwise_map.mpr hsorted)
      (List.pairwise_findIdxs.imp Nat.le_of_lt) ((hperm.map Prod.fst).trans h.openers)
    intro i j _ _ hij hji
    exact Nat.le_antisymm hij hji
  · intro p hp
    obtain ⟨i, j, rfl, hgroup⟩ := h.isGroup p (hperm.mem_iff.mp hp)
    simpa using hgroup
  · intro p hp q hq
    exact h.apart_or_inside p (hperm.mem_iff.mp hp) q (hperm.mem_iff.mp hq)

theorem Balanced.exists_groups (h : Balanced ts) :
    ∃ pairs, groups ts = .ok pairs ∧ Matches ts pairs := by
  obtain ⟨pairs, hgrouped⟩ := h.exists_grouped 0
  have hfrom := hgrouped.groupsFrom_append [] []
  rw [List.append_nil] at hfrom
  refine ⟨_, ?_, hgrouped.matches_mergeSort⟩
  rw [groups, hfrom, groupsFrom, Except.map, Except.map, List.append_nil]

/-! ### What is left open -/

/-- The tokens leave some openers open, the innermost first; all else in them matches. -/
inductive LeavesOpen : List Token → List Opening → Prop
  | balanced {ts : List Token} (h : Balanced ts) : LeavesOpen ts []
  | opener {ts inner : List Token} {stack : List Opening} {o : Token} {k : Bracket}
      (h : LeavesOpen ts stack) (ho : o.opens? = some k) (hinner : Balanced inner) :
      LeavesOpen (ts ++ o :: inner) (⟨ts.length, o.line, k⟩ :: stack)

namespace LeavesOpen

theorem append_balanced (h : LeavesOpen ts stack) (hus : Balanced us) :
    LeavesOpen (ts ++ us) stack := by
  cases h with
  | balanced h => exact .balanced (h.append hus)
  | opener h ho hinner =>
      rw [List.append_assoc, List.cons_append]
      exact .opener h ho (hinner.append hus)

/-- A closer ends the innermost opener of its kind. -/
theorem closer {o : Opening} (h : LeavesOpen ts (o :: stack)) (hc : t.closes? = some o.bracket) :
    LeavesOpen (ts ++ [t]) stack := by
  cases h with
  | opener h ho hinner =>
      rw [List.append_assoc, List.cons_append]
      exact h.append_balanced (.bracketed ho hc hinner)

/-- The matching of brackets goes on behind the tokens with what they leave open on its stack. -/
theorem groupsFrom_append (h : LeavesOpen ts stack) (rest : List Token) : ∃ pairs,
    groupsFrom 0 [] (ts ++ rest) = (groupsFrom ts.length stack rest).map (pairs ++ ·) := by
  induction h generalizing rest with
  | @balanced ts h =>
      have hfrom := h.groupsFrom_append 0 [] rest
      rwa [Nat.zero_add] at hfrom
  | @opener ts inner stack o k _ ho hinner ih =>
      obtain ⟨before, hbefore⟩ := ih (o :: inner ++ rest)
      obtain ⟨pairs, hpairs⟩ :=
        hinner.groupsFrom_append (ts.length + 1) (⟨ts.length, o.line, k⟩ :: stack) rest
      have hlength : (ts ++ o :: inner).length = ts.length + 1 + inner.length := by
        simp only [List.length_append, List.length_cons]
        omega
      refine ⟨before ++ pairs, ?_⟩
      rw [List.append_assoc, hbefore, List.cons_append, groupsFrom, ho]
      simp only
      rw [hpairs, hlength]
      cases groupsFrom (ts.length + 1 + inner.length) (⟨ts.length, o.line, k⟩ :: stack) rest with
      | error fault => rfl
      | ok more => simp [Except.map]

/-- A fault in what follows is a fault of the whole. -/
theorem groups_eq_error {rest : List Token} (h : LeavesOpen ts stack)
    (hrest : groupsFrom ts.length stack rest = .error fault) :
    groups (ts ++ rest) = .error fault := by
  obtain ⟨pairs, hpairs⟩ := h.groupsFrom_append rest
  rw [groups, hpairs, hrest]
  rfl

end LeavesOpen

/-- Why brackets do not match: the first closer that ends no opener, or that would end one of
another kind; or, when no closer is wrong, the innermost opener that is left open. -/
inductive Faulty : List Token → LexFault → Prop
  | unmatched {before after : List Token} {c : Token} {k : Bracket} (h : LeavesOpen before [])
      (hc : c.closes? = some k) : Faulty (before ++ c :: after) ⟨.unmatched k, c.line⟩
  | mismatched {before after : List Token} {stack : List Opening} {o : Opening} {c : Token}
      {k : Bracket} (h : LeavesOpen before (o :: stack)) (hc : c.closes? = some k)
      (hne : o.bracket ≠ k) :
      Faulty (before ++ c :: after) ⟨.mismatched o.bracket o.line k, c.line⟩
  | unclosed {ts : List Token} {stack : List Opening} {o : Opening}
      (h : LeavesOpen ts (o :: stack)) : Faulty ts ⟨.unclosed o.bracket, o.line⟩

theorem Faulty.groups_eq (h : Faulty ts fault) : groups ts = .error fault := by
  cases h with
  | unmatched h hc =>
      refine h.groups_eq_error ?_
      rw [groupsFrom, Token.opens?_of_closes? hc, hc]
  | mismatched h hc hne =>
      refine h.groups_eq_error ?_
      rw [groupsFrom, Token.opens?_of_closes? hc, hc]
      exact if_neg hne
  | unclosed h =>
      rw [← List.append_nil ts]
      exact h.groups_eq_error rfl

/-- One token after the other either leaves some openers open or is the first that is wrong. -/
theorem leavesOpen_or_faulty (ts : List Token) :
    (∃ stack, LeavesOpen ts stack) ∨ ∃ fault, ∀ more, Faulty (ts ++ more) fault := by
  induction ts using List.reverseRecOn with
  | nil => exact .inl ⟨[], .balanced .nil⟩
  | append_singleton ts t ih =>
      rcases ih with ⟨stack, h⟩ | ⟨fault, h⟩
      · cases ho : t.opens? with
        | some k => exact .inl ⟨_, .opener h ho .nil⟩
        | none =>
            cases hc : t.closes? with
            | none => exact .inl ⟨stack, h.append_balanced (.singleton ⟨ho, hc⟩)⟩
            | some k =>
                cases stack with
                | nil =>
                    refine .inr ⟨⟨.unmatched k, t.line⟩, fun more => ?_⟩
                    rw [List.append_assoc]
                    exact .unmatched h hc
                | cons o stack =>
                    by_cases hk : o.bracket = k
                    · exact .inl ⟨stack, h.closer (hk ▸ hc)⟩
                    · refine .inr ⟨⟨.mismatched o.bracket o.line k, t.line⟩, fun more => ?_⟩
                      rw [List.append_assoc]
                      exact .mismatched h hc hk
      · refine .inr ⟨fault, fun more => ?_⟩
        rw [List.append_assoc]
        exact h _

theorem balanced_or_faulty (ts : List Token) : Balanced ts ∨ ∃ fault, Faulty ts fault := by
  rcases leavesOpen_or_faulty ts with ⟨stack, h⟩ | ⟨fault, h⟩
  · cases h with
    | balanced h => exact .inl h
    | opener h ho hinner => exact .inr ⟨_, .unclosed (.opener h ho hinner)⟩
  · have hfaulty := h []
    rw [List.append_nil] at hfaulty
    exact .inr ⟨fault, hfaulty⟩

/-- **Matching is exact.**  The brackets match exactly when the tokens are balanced, the pairs that
are found then are the groups, and the fault that is found otherwise is the first one there is. -/
theorem groups_exact (ts : List Token) :
    ((∃ pairs, groups ts = .ok pairs) ↔ Balanced ts) ∧
    (∀ pairs, groups ts = .ok pairs → Matches ts pairs) ∧
    ∀ fault, groups ts = .error fault ↔ Faulty ts fault := by
  rcases balanced_or_faulty ts with h | ⟨fault, h⟩
  · obtain ⟨pairs, hok, hmatches⟩ := h.exists_groups
    refine ⟨iff_of_true ⟨pairs, hok⟩ h, ?_, ?_⟩
    · intro pairs' hok'
      rw [hok] at hok'
      exact Except.ok.inj hok' ▸ hmatches
    · intro fault
      refine ⟨fun herror => ?_, Faulty.groups_eq⟩
      rw [hok] at herror
      cases herror
  · have herror := h.groups_eq
    refine ⟨iff_of_false ?_ ?_, ?_, ?_⟩
    · rintro ⟨pairs, hok⟩
      rw [herror] at hok
      cases hok
    · intro hbalanced
      obtain ⟨pairs, hok, -⟩ := hbalanced.exists_groups
      rw [herror] at hok
      cases hok
    · intro pairs hok
      rw [herror] at hok
      cases hok
    · intro fault'
      refine ⟨fun herror' => ?_, Faulty.groups_eq⟩
      rw [herror] at herror'
      exact Except.error.inj herror' ▸ h

/-- A group in a group, and a group behind them on the next line. -/
def threeGroups : List Token :=
  [.mark 1 "(", .mark 1 "[", .name 1 "x", .mark 1 "]", .mark 1 ")", .mark 2 "\x7b", .mark 2 "\x7d"]

/-- The groups of some tokens, and what is wrong when the second closer is left out. -/
theorem groups_exact_threeGroups :
    (groups threeGroups = .ok [(0, 4), (1, 3), (5, 6)] ∧
      Matches threeGroups [(0, 4), (1, 3), (5, 6)]) ∧
    groups (threeGroups.eraseIdx 4) = .error ⟨.unclosed .round, 1⟩ ∧
      Faulty (threeGroups.eraseIdx 4) ⟨.unclosed .round, 1⟩ := by
  have hfrom : groupsFrom 0 [] threeGroups = .ok [(1, 3), (0, 4), (5, 6)] := by decide +kernel
  have hok : groups threeGroups = .ok [(0, 4), (1, 3), (5, 6)] := by
    rw [groups, hfrom]
    simp [Except.map, List.mergeSort, List.MergeSort.Internal.splitInTwo]
  have herror : groups (threeGroups.eraseIdx 4) = .error ⟨.unclosed .round, 1⟩ := by
    decide +kernel
  exact ⟨⟨hok, (groups_exact threeGroups).2.1 _ hok⟩, herror,
    ((groups_exact (threeGroups.eraseIdx 4)).2.2 _).mp herror⟩

end ConversionClosure
