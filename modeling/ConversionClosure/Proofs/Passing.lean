/-
Runs that are kept as their text.

A type that the reader does not take apart is the run up to the mark that ends it.  `Passes` tells
such runs by their shape: in which order tokens and groups follow each other, and how many angle
brackets are open behind them.  A run that leaves some open takes whatever comes behind it, so that
it can only be the last one.

What a run passes is its kinds and texts, so a run on other lines passes as well.
-/
import ConversionClosure.Proofs.Relexing
import ConversionClosure.Proofs.Settling

namespace ConversionClosure

open Token

variable {angles left : Nat} {ts us run inner rest : List Token} {t o c : Token} {k : Bracket}

/-- A run that the end of a type does not come in, with `angles` angle brackets open in front of it
and `left` of them behind it. -/
inductive Passes : Nat → List Token → Nat → Prop
  | nil {angles : Nat} : Passes angles [] angles
  | inner {angles left : Nat} {t : Token} {ts : List Token} (ht : t.IsInner)
      (hend : ¬ (angles = 0 ∧ Run.endsType t = true))
      (h : Passes (Run.openBehind angles t) ts left) : Passes angles (t :: ts) left
  | group {angles left : Nat} {o c : Token} {k : Bracket} {inner ts : List Token}
      (ho : o.opens? = some k) (hc : c.closes? = some k) (hinner : Balanced inner)
      (hend : ¬ (angles = 0 ∧ Run.endsType o = true)) (h : Passes angles ts left) :
      Passes angles (o :: inner ++ c :: ts) left

namespace Passes

theorem balanced (h : Passes angles run left) : Balanced run := by
  induction h with
  | nil => exact .nil
  | inner ht _ _ ih => exact .inner ht ih
  | group ho hc hinner _ _ ih => exact .group ho hc hinner ih

theorem alike (h : Passes angles run left) (halike : Alike run us) : Passes angles us left := by
  induction h generalizing us with
  | nil => exact halike.eq_nil ▸ .nil
  | inner ht hend _ ih =>
      obtain ⟨line, vs, rfl, hvs⟩ := halike.exists_cons
      exact .inner ht hend (ih hvs)
  | group ho hc hinner hend _ ih =>
      obtain ⟨line, vs, rfl, hvs⟩ := halike.exists_cons
      obtain ⟨inner, ws, rfl, hinner', hws⟩ := Alike.exists_append hvs
      obtain ⟨line', xs, rfl, hxs⟩ := Alike.exists_cons hws
      exact .group ho hc (hinner'.balanced hinner) hend (ih hxs)

theorem untilEnd_append (h : Passes angles run left) (rest : List Token) :
    Run.untilEnd 0 angles (run ++ rest) = Balanced.ahead run (Run.untilEnd 0 left rest) := by
  induction h with
  | nil => rfl
  | inner ht hend _ ih =>
      rw [List.cons_append, Run.untilEnd_inner ht.isOpener hend, ih]
      rfl
  | group ho hc hinner hend _ ih =>
      rw [List.cons_append, List.cons_append, List.append_assoc, List.cons_append, Run.untilEnd,
        if_neg fun h => hend h.2, if_pos (isOpener_of_opens? ho), hinner.untilEnd_append,
        Run.untilEnd, if_neg (by simp), isOpener_of_closes? hc, isCloser_of_closes? hc,
        if_neg (by simp), if_pos Nat.one_pos, if_pos rfl, ih]
      simp [Balanced.ahead, Run.onto]

/-- A word in front of a run opens nothing. -/
theorem of_word (h : Passes angles (t :: ts) left) (ht : t.kind ≠ .punct) :
    Passes angles ts left := by
  generalize hcons : t :: ts = us at h
  cases h with
  | nil => cases hcons
  | inner _ _ h =>
      cases hcons
      rwa [Run.openBehind, isPunct_of_kind ht, isPunct_of_kind ht] at h
  | group ho _ _ _ _ =>
      obtain ⟨rfl, -⟩ := List.cons.inj hcons
      rw [opens?, if_neg ht] at ho
      cases ho

/-- Outside of angle brackets no mark that ends a type is passed. -/
theorem endsType_eq_false (h : Passes 0 (t :: ts) left) : Run.endsType t = false := by
  generalize hcons : t :: ts = us at h
  cases h with
  | nil => cases hcons
  | inner _ hend _ =>
      cases hcons
      simpa using hend
  | group _ _ _ hend _ =>
      obtain ⟨rfl, -⟩ := List.cons.inj hcons
      simpa using hend

/-- A colon in front of a run opens nothing. -/
theorem of_colon {l : Nat} (h : Passes angles (mark l ":" :: ts) left) : Passes angles ts left := by
  generalize hcons : mark l ":" :: ts = us at h
  cases h with
  | nil => cases hcons
  | inner _ _ h =>
      cases hcons
      exact h
  | group ho _ _ _ _ =>
      obtain ⟨rfl, -⟩ := List.cons.inj hcons
      cases ho

end Passes

/-- Tokens whose brackets match are taken up to the first mark that ends a type. -/
theorem Balanced.exists_passes (h : Balanced ts) (angles : Nat) :
    ∃ run rest left, ts = run ++ rest ∧ Balanced rest ∧ Passes angles run left ∧
      Run.untilEnd 0 angles ts = (run, rest) ∧ (rest = [] ∨ left = 0) := by
  induction h generalizing angles with
  | nil => exact ⟨[], [], angles, rfl, .nil, .nil, rfl, .inl rfl⟩
  | @inner t ts ht hts ih =>
      by_cases hend : angles = 0 ∧ Run.endsType t = true
      · obtain ⟨rfl, hend⟩ := hend
        exact ⟨[], t :: ts, 0, rfl, .inner ht hts, .nil, by simp [Run.untilEnd, hend], .inr rfl⟩
      · obtain ⟨run, rest, left, rfl, hrest, hpasses, hrun, hleft⟩ := ih (Run.openBehind angles t)
        refine ⟨t :: run, rest, left, rfl, hrest, .inner ht hend hpasses, ?_, hleft⟩
        rw [Run.untilEnd_inner ht.isOpener hend, hrun]
        rfl
  | @group o c k body ts ho hc hbody hts _ ih =>
      by_cases hend : angles = 0 ∧ Run.endsType o = true
      · obtain ⟨rfl, hend⟩ := hend
        exact ⟨[], o :: body ++ c :: ts, 0, rfl, Balanced.group ho hc hbody hts, .nil,
          by simp [Run.untilEnd, hend], .inr rfl⟩
      · obtain ⟨run, rest, left, rfl, hrest, hpasses, hrun, hleft⟩ := ih angles
        have hgroup : Passes angles (o :: body ++ c :: run) left := .group ho hc hbody hend hpasses
        refine ⟨o :: body ++ c :: run, rest, left, by simp, hrest, hgroup, ?_, hleft⟩
        have hrest' : Run.untilEnd 0 left rest = ([], rest) := by
          rw [hpasses.untilEnd_append, Balanced.ahead] at hrun
          obtain ⟨hnil, hall⟩ := Prod.mk.inj hrun
          exact Prod.ext (by simpa using hnil) hall
        have happend : o :: body ++ c :: (run ++ rest) = (o :: body ++ c :: run) ++ rest := by simp
        rw [happend, hgroup.untilEnd_append, hrest', Balanced.ahead, List.append_nil]

/-! ### Angle brackets that stay open -/

namespace Run

/-- How many angle brackets are open behind the tokens, with `angles` open in front of them; what
stands in brackets is passed over. -/
def opened : (brackets angles : Nat) → List Token → Nat
  | _, angles, [] => angles
  | brackets, angles, t :: ts =>
    if t.isOpener then opened (brackets + 1) angles ts
    else if 0 < brackets then opened (if t.isCloser then brackets - 1 else brackets) angles ts
    else opened 0 (openBehind angles t) ts

theorem opened_inner (ht : t.IsInner) (angles : Nat) (ts : List Token) :
    opened 0 angles (t :: ts) = opened 0 (openBehind angles t) ts := by
  rw [opened, ht.isOpener]
  rfl

theorem opened_balanced_append (h : Balanced ts) (brackets angles : Nat) (rest : List Token) :
    opened (brackets + 1) angles (ts ++ rest) = opened (brackets + 1) angles rest := by
  induction h generalizing brackets rest with
  | nil => rfl
  | inner ht _ ih =>
      rw [List.cons_append, opened, ht.isOpener, ht.isCloser]
      exact ih brackets rest
  | group ho hc _ _ ihinner ih =>
      rw [List.append_assoc, List.cons_append, opened, if_pos (isOpener_of_opens? ho), ihinner,
        List.cons_append, opened, isOpener_of_closes? hc, isCloser_of_closes? hc]
      exact ih brackets rest

theorem opened_group (ho : o.opens? = some k) (hc : c.closes? = some k) (hinner : Balanced inner)
    (angles : Nat) (rest : List Token) :
    opened 0 angles (o :: (inner ++ c :: rest)) = opened 0 angles rest := by
  rw [opened, if_pos (isOpener_of_opens? ho), opened_balanced_append hinner, opened,
    isOpener_of_closes? hc, isCloser_of_closes? hc]
  rfl

theorem opened_append (h : Balanced ts) (angles : Nat) (us : List Token) :
    opened 0 angles (ts ++ us) = opened 0 (opened 0 angles ts) us := by
  induction h generalizing angles with
  | nil => rfl
  | inner ht _ ih => rw [List.cons_append, opened_inner ht, ih, opened_inner ht]
  | group ho hc hinner _ _ ih =>
      rw [List.append_assoc, List.cons_append, List.cons_append, opened_group ho hc hinner, ih,
        List.cons_append, opened_group ho hc hinner]

end Run

/-- The brackets of the run match, and it leaves `left` angle brackets open. -/
structure Spans (left : Nat) (run : List Token) : Prop where
  balanced : Balanced run
  opened : ∀ angles, Run.opened 0 angles run = angles + left

namespace Spans

theorem nil : Spans 0 [] := ⟨.nil, fun _ => rfl⟩

theorem cons (ht : t.IsInner) (hless : t.isPunct "<" = false) (hgreater : t.isPunct ">" = false)
    (h : Spans left ts) : Spans left (t :: ts) where
  balanced := .inner ht h.balanced
  opened angles := by
    rw [Run.opened_inner ht, Run.openBehind, hless, hgreater]
    exact h.opened angles

theorem word (ht : t.kind ≠ .punct) (h : Spans left ts) : Spans left (t :: ts) :=
  h.cons (isInner_of_kind_ne ht) (isPunct_of_kind ht _) (isPunct_of_kind ht _)

theorem append (h : Spans 0 run) (h' : Spans left us) : Spans left (run ++ us) where
  balanced := h.balanced.append h'.balanced
  opened angles := by rw [Run.opened_append h.balanced, h.opened, h'.opened, Nat.add_zero]

theorem group (ho : o.opens? = some k) (hc : c.closes? = some k) (hinner : Balanced inner) :
    Spans 0 (o :: (inner ++ [c])) :=
  ⟨.bracketed ho hc hinner, fun angles => Run.opened_group ho hc hinner angles []⟩

/-- Angle brackets around nothing. -/
theorem nothing (l l' : Nat) : Spans 0 [mark l "<", mark l' ">"] :=
  ⟨.inner (isInner_mark rfl rfl) (.singleton (isInner_mark rfl rfl)), fun _ => rfl⟩

/-- A run goes between angle brackets, in front of what is there. -/
theorem within_append {l : Nat} (h : Spans 0 run) (h' : Spans 0 (mark l "<" :: us)) :
    Spans 0 (mark l "<" :: (run ++ us)) where
  balanced := by
    cases h'.balanced with
    | inner ht hus => exact .inner ht (h.balanced.append hus)
    | group ho _ _ _ => cases ho
  opened angles := by
    have hus := h'.opened angles
    rw [Run.opened_inner (isInner_mark rfl rfl)] at hus ⊢
    rw [Run.opened_append h.balanced, h.opened]
    exact hus

end Spans

theorem Passes.opened (h : Passes angles run left) (more : Nat) :
    Run.opened 0 (more + angles) run = more + left := by
  induction h with
  | nil => rfl
  | @inner angles left t ts ht hend _ ih =>
      have hbehind : Run.openBehind (more + angles) t = more + Run.openBehind angles t := by
        unfold Run.openBehind
        split
        · rfl
        split
        · rename_i hgreater
          have hne : angles ≠ 0 := fun hzero => hend ⟨hzero, by simp [Run.endsType, hgreater]⟩
          omega
        · rfl
      rw [Run.opened_inner ht, hbehind, ih]
  | group ho hc hinner _ _ ih =>
      rw [List.cons_append, Run.opened_group ho hc hinner, ih]

theorem Passes.spans (h : Passes 0 run left) : Spans left run := ⟨h.balanced, h.opened⟩

/-! ### What stands behind a type -/

/-- Nothing follows, or a mark that ends a type wherever it stands. -/
def Ends (rest : List Token) : Prop :=
  ∀ t ∈ rest.head?, ∃ l, ∃ text ∈ [",", ";", ">"], t = mark l text

theorem ends_nil : Ends [] := by simp [Ends]

theorem ends_mark {l : Nat} {text : String} (h : text ∈ [",", ";", ">"]) :
    Ends (mark l text :: rest) := by
  rintro _ ⟨⟩
  exact ⟨l, text, h, rfl⟩

theorem Ends.follows (h : Ends rest) : Reference.Follows rest := by
  intro t ht text htext
  obtain ⟨l, text', htext', rfl⟩ := h t ht
  simp only [List.mem_cons, List.not_mem_nil, or_false] at htext htext'
  rcases htext' with rfl | rfl | rfl <;> rcases htext with rfl | rfl | rfl | rfl | rfl | rfl <;> rfl

theorem Ends.any_arrow (h : Ends rest) : rest[0]?.any (·.isPunct "->") = false := by
  cases rest with
  | nil => rfl
  | cons t rest =>
      obtain ⟨l, text, htext, rfl⟩ := h t rfl
      simp only [List.mem_cons, List.not_mem_nil, or_false] at htext
      rcases htext with rfl | rfl | rfl <;> rfl

theorem Ends.untilEnd_eq (h : Ends rest) : Run.untilEnd 0 0 rest = ([], rest) := by
  cases rest with
  | nil => rfl
  | cons t rest =>
      obtain ⟨l, text, htext, rfl⟩ := h t rfl
      simp only [List.mem_cons, List.not_mem_nil, or_false] at htext
      rcases htext with rfl | rfl | rfl <;> rfl

/-- A run is taken in front of what ends it; behind a run that leaves angle brackets open nothing
may follow. -/
theorem TokenReader.untilEnd_append (h : Passes 0 run left) (hne : run ≠ []) (hrest : Ends rest)
    (hleft : left ≠ 0 → rest = []) : TokenReader.untilEnd (run ++ rest) = .ok run rest := by
  have hend : Run.untilEnd 0 left rest = ([], rest) := by
    by_cases hzero : left = 0
    · rw [hzero, hrest.untilEnd_eq]
    · rw [hleft hzero]
      rfl
  have hrun : Run.untilEnd 0 0 (run ++ rest) = (run, rest) := by
    rw [h.untilEnd_append, hend, Balanced.ahead, List.append_nil]
  rw [untilEnd_apply, hrun]
  simp [hne]

end ConversionClosure
