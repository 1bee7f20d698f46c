/-
The runs that an item is made of.

Behind its keyword an item may have parameters between angle brackets, and it goes on up to its
first semicolon or brace group that stands in no other bracket.  Each kind of run is told by its
shape, as `Balanced` is, and whatever passes over it goes by that shape.
-/
import ConversionClosure.Proofs.Spelling
import ConversionClosure.Declaration.Scanner

namespace ConversionClosure

open Token Reference

variable {o c : Token} {k : Bracket} {ts us inner rest : List Token}

/-! ### Angle brackets -/

/-- The angle brackets of the run match, apart from what stands in other brackets. -/
inductive Angled : List Token → Prop
  | nil : Angled []
  | inner {t : Token} {ts : List Token} (ht : t.IsInner) (hopen : t.isPunct "<" = false)
      (hclose : t.isPunct ">" = false) (h : Angled ts) : Angled (t :: ts)
  | group {o c : Token} {k : Bracket} {inner ts : List Token} (ho : o.opens? = some k)
      (hc : c.closes? = some k) (hinner : Balanced inner) (h : Angled ts) :
      Angled (o :: inner ++ c :: ts)
  | angles {l l' : Nat} {inner ts : List Token} (hinner : Angled inner) (h : Angled ts) :
      Angled (mark l "<" :: (inner ++ mark l' ">" :: ts))

theorem Balanced.angles?_append (h : Balanced ts) (brackets angles : Nat) (rest : List Token) :
    Run.angles? (brackets + 1) angles (ts ++ rest) =
      (Run.angles? (brackets + 1) angles rest).map (ahead ts) := by
  induction h generalizing brackets rest with
  | nil =>
      rw [List.nil_append]
      cases Run.angles? (brackets + 1) angles rest <;> rfl
  | inner ht _ ih =>
      rw [List.cons_append, Run.angles?, ht.isOpener, ht.isCloser]
      simp only [Bool.false_eq_true, if_false, Nat.zero_lt_succ, if_true, ih, Option.map_map]
      rfl
  | group ho hc _ _ ihinner ih =>
      rw [List.append_assoc, List.cons_append, Run.angles?,
        if_pos (Token.isOpener_of_opens? ho), ihinner, List.cons_append, Run.angles?,
        Token.isOpener_of_closes? hc, Token.isCloser_of_closes? hc, Nat.add_sub_cancel]
      simp only [Bool.false_eq_true, if_false, Nat.zero_lt_succ, if_true, ih]
      cases Run.angles? (brackets + 1) angles rest with
      | none => rfl
      | some split => simp [ahead, Run.onto]

namespace Angled

theorem balanced (h : Angled ts) : Balanced ts := by
  induction h with
  | nil => exact .nil
  | inner ht _ _ _ ih => exact .inner ht ih
  | group ho hc hinner _ ih => exact .group ho hc hinner ih
  | angles _ _ ihinner ih =>
      exact .inner (isInner_mark rfl rfl) (ihinner.append (.inner (isInner_mark rfl rfl) ih))

/-- A run without any bracket. -/
theorem of_inner (h : ∀ t ∈ ts, t.IsInner ∧ t.isPunct "<" = false ∧ t.isPunct ">" = false) :
    Angled ts := by
  induction ts with
  | nil => exact .nil
  | cons t ts ih =>
      obtain ⟨ht, hopen, hclose⟩ := h t (by simp)
      exact .inner ht hopen hclose (ih fun u hu => h u (by simp [hu]))

theorem append (h : Angled ts) (hus : Angled us) : Angled (ts ++ us) := by
  induction h with
  | nil => exact hus
  | inner ht hopen hclose _ ih => exact .inner ht hopen hclose ih
  | group ho hc hinner _ ih =>
      rw [List.append_assoc, List.cons_append]
      exact .group ho hc hinner ih
  | angles hinner _ _ ih =>
      rw [List.cons_append, List.append_assoc, List.cons_append]
      exact .angles hinner ih

/-- Inside of angle brackets the run is passed over. -/
theorem angles?_append (h : Angled ts) (angles : Nat) (rest : List Token) :
    Run.angles? 0 (angles + 1) (ts ++ rest) =
      (Run.angles? 0 (angles + 1) rest).map (Balanced.ahead ts) := by
  induction h generalizing angles rest with
  | nil =>
      rw [List.nil_append]
      cases Run.angles? 0 (angles + 1) rest <;> rfl
  | inner ht hopen hclose _ ih =>
      rw [List.cons_append, Run.angles?, ht.isOpener, hopen, hclose]
      simp only [Bool.false_eq_true, if_false, Nat.lt_irrefl, ih, Option.map_map]
      rfl
  | group ho hc hinner _ ih =>
      rw [List.append_assoc, List.cons_append, Run.angles?,
        if_pos (Token.isOpener_of_opens? ho), hinner.angles?_append, List.cons_append, Run.angles?,
        Token.isOpener_of_closes? hc, Token.isCloser_of_closes? hc]
      simp only [Bool.false_eq_true, if_false, Nat.zero_lt_succ, if_true, Nat.add_sub_cancel, ih]
      cases Run.angles? 0 (angles + 1) rest with
      | none => rfl
      | some split => simp [Balanced.ahead, Run.onto]
  | @angles l l' inner ts _ _ ihinner ih =>
      have hopener : ∀ (n : Nat) (text : String), text = "<" ∨ text = ">" →
          (mark n text).isOpener = false := by
        rintro n text (rfl | rfl) <;> rfl
      rw [List.cons_append, List.append_assoc, Run.angles?, hopener l _ (.inl rfl), ihinner,
        List.cons_append, Run.angles?, hopener l' _ (.inr rfl)]
      have hmore : ¬ angles + 1 + 1 ≤ 1 := by omega
      simp only [Bool.false_eq_true, if_false, Nat.lt_irrefl, isPunct_mark, beq_self_eq_true,
        if_true, hmore, Nat.add_sub_cancel, ih]
      cases Run.angles? 0 (angles + 1) rest with
      | none => rfl
      | some split => simp [Balanced.ahead, Run.onto]

end Angled

/-- Parameters: nothing, or a run between angle brackets. -/
inductive Parameters : List Token → Prop
  | none : Parameters []
  | run {l l' : Nat} {ts : List Token} (h : Angled ts) :
      Parameters (mark l "<" :: (ts ++ [mark l' ">"]))

theorem Parameters.balanced (h : Parameters ts) : Balanced ts := by
  cases h with
  | none => exact .nil
  | run h =>
      exact .inner (isInner_mark rfl rfl)
        (h.balanced.append (.singleton (isInner_mark rfl rfl)))

/-- A run between angle brackets is taken whole. -/
theorem TokenReader.angles_append {l l' : Nat} (h : Angled ts) :
    angles (mark l "<" :: (ts ++ mark l' ">" :: rest)) =
      .ok (mark l "<" :: (ts ++ [mark l' ">"])) rest := by
  have hclose : Run.angles? 0 1 (mark l' ">" :: rest) = some ([mark l' ">"], rest) := rfl
  have hall : Run.angles? 0 0 (mark l "<" :: (ts ++ mark l' ">" :: rest)) =
      some (mark l "<" :: (ts ++ [mark l' ">"]), rest) := by
    show (Run.angles? 0 1 (ts ++ mark l' ">" :: rest)).map (Run.onto (mark l "<")) = _
    rw [h.angles?_append 0, hclose]
    rfl
  rw [angles_apply, hall]

/-! ### Up to the end of an item -/

/-- The item goes on through the run: no semicolon and no brace group stands outside of other
brackets. -/
inductive Ongoing : List Token → Prop
  | nil : Ongoing []
  | inner {t : Token} {ts : List Token} (ht : t.IsInner) (hsemicolon : t.isPunct ";" = false)
      (h : Ongoing ts) : Ongoing (t :: ts)
  | group {o c : Token} {k : Bracket} {inner ts : List Token} (ho : o.opens? = some k)
      (hk : k ≠ .curly) (hc : c.closes? = some k) (hinner : Balanced inner) (h : Ongoing ts) :
      Ongoing (o :: inner ++ c :: ts)

namespace Ongoing

theorem balanced (h : Ongoing ts) : Balanced ts := by
  induction h with
  | nil => exact .nil
  | inner ht _ _ ih => exact .inner ht ih
  | group ho _ hc hinner _ ih => exact .group ho hc hinner ih

theorem afterItem_append (h : Ongoing ts) (rest : List Token) :
    Run.afterItem 0 false (ts ++ rest) = Run.afterItem 0 false rest := by
  induction h with
  | nil => rfl
  | inner ht hsemicolon _ ih =>
      rw [List.cons_append, Run.afterItem, ht.isOpener, hsemicolon, ← ih]
      rfl
  | group ho hk hc hinner _ ih =>
      have hbraces : (some _ == some Bracket.curly) = false :=
        beq_eq_false_iff_ne.mpr fun h => hk (Option.some.inj h)
      rw [List.append_assoc, List.cons_append, Run.afterItem,
        if_pos (Token.isOpener_of_opens? ho), if_pos rfl, ho, hbraces,
        hinner.afterItem_append 0, List.cons_append, Run.afterItem, Token.isOpener_of_closes? hc,
        Token.isCloser_of_closes? hc, ← ih]
      simp

end Ongoing

/-- The end of an item: a semicolon, or a brace group. -/
inductive ItemEnd : List Token → Prop
  | semicolon {l : Nat} : ItemEnd [mark l ";"]
  | braces {l l' : Nat} {body : List Token} (h : Balanced body) :
      ItemEnd (mark l "\x7b" :: (body ++ [mark l' "\x7d"]))

namespace ItemEnd

theorem balanced (h : ItemEnd ts) : Balanced ts := by
  cases h with
  | semicolon => exact .singleton (isInner_mark rfl rfl)
  | braces h => exact .bracketed rfl rfl h

theorem afterItem_append (h : ItemEnd ts) (rest : List Token) :
    Run.afterItem 0 false (ts ++ rest) = rest := by
  cases h with
  | semicolon => rfl
  | @braces l l' body h =>
      rw [List.cons_append, List.append_assoc]
      exact Balanced.afterItem_braces rfl rfl h

end ItemEnd

/-- An item that goes on through a run is over behind its end. -/
theorem Ongoing.afterItem_ending (h : Ongoing ts) (hend : ItemEnd us) (rest : List Token) :
    Run.afterItem 0 false (ts ++ (us ++ rest)) = rest := by
  rw [h.afterItem_append, hend.afterItem_append]

/-- What may stand between the type that an implementation is for and its body: nothing, or a
`where` and what it asks for. -/
inductive Clause : List Token → Prop
  | none : Clause []
  | run {l : Nat} {ts : List Token} (h : Ongoing ts) : Clause (name l "where" :: ts)

theorem Clause.ongoing (h : Clause ts) : Ongoing ts := by
  cases h with
  | none => exact .nil
  | run h => exact .inner isInner_name rfl h

end ConversionClosure
