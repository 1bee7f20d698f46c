/-
Regions of tokens that a reader is to stay in.

A reader may have all tokens up to their end, as inside of a group.  Or it is in the header of an
implementation, and then the body stands behind the header and whatever follows behind the body.
Each region has an invariant.  Among all tokens every opening bracket has its closing one, while
closing brackets may stand alone, since a reader that fails may leave some of them.  In a header no
semicolon and no brace group stands outside of other brackets, and the header is contained: nothing
in it makes a reader take the brace of the body.
-/
import ConversionClosure.Proofs.Runs
import ConversionClosure.Proofs.Tokens

namespace ConversionClosure

open Token

variable {ts us inner rest : List Token} {t o c : Token} {k : Bracket} {text : String}

/-! ### Single tokens -/

theorem Token.exists_mark (h : t.isPunct text = true) : ∃ l, t = mark l text := by
  obtain ⟨kind, text', line⟩ := t
  rw [isPunct, Bool.and_eq_true] at h
  obtain rfl : kind = .punct := eq_of_beq h.1
  obtain rfl : text' = text := eq_of_beq h.2
  exact ⟨line, rfl⟩

theorem Token.isWord_of_isIdent (h : t.isIdent text = true) : t.kind ≠ .punct := by
  simp [kind_of_isIdent h]

theorem Token.isPunct_of_kind (h : t.kind ≠ .punct) (text : String) : t.isPunct text = false := by
  simp [isPunct, h]

theorem Token.eq_mark_of_opens? (h : t.opens? = some k) : ∃ l, t = mark l k.opener := by
  obtain ⟨kind, text, line⟩ := t
  unfold opens? at h
  split at h
  · rename_i hkind
    obtain rfl : kind = .punct := hkind
    refine ⟨line, ?_⟩
    unfold Bracket.ofOpener? at h
    split at h
    · rename_i htext
      obtain rfl := Option.some.inj h
      rw [mark, ← htext]
    split at h
    · rename_i htext
      obtain rfl := Option.some.inj h
      rw [mark, ← htext]
    split at h
    · rename_i htext
      obtain rfl := Option.some.inj h
      rw [mark, ← htext]
    · cases h
  · cases h

theorem Token.eq_mark_of_closes? (h : t.closes? = some k) : ∃ l, t = mark l k.closer := by
  obtain ⟨kind, text, line⟩ := t
  unfold closes? at h
  split at h
  · rename_i hkind
    obtain rfl : kind = .punct := hkind
    refine ⟨line, ?_⟩
    unfold Bracket.ofCloser? at h
    split at h
    · rename_i htext
      obtain rfl := Option.some.inj h
      rw [mark, ← htext]
    split at h
    · rename_i htext
      obtain rfl := Option.some.inj h
      rw [mark, ← htext]
    split at h
    · rename_i htext
      obtain rfl := Option.some.inj h
      rw [mark, ← htext]
    · cases h
  · cases h

/-! ### Tokens whose opening brackets are closed -/

/-- Every opening bracket has its closing one, while a closing bracket may stand alone. -/
inductive Matched : List Token → Prop
  | nil : Matched []
  | other {t : Token} {ts : List Token} (ht : t.isOpener = false) (h : Matched ts) :
      Matched (t :: ts)
  | group {o c : Token} {k : Bracket} {inner ts : List Token} (ho : o.opens? = some k)
      (hc : c.closes? = some k) (hinner : Balanced inner) (h : Matched ts) :
      Matched (o :: inner ++ c :: ts)

theorem Balanced.matched_append (h : Balanced ts) (h' : Matched us) : Matched (ts ++ us) := by
  induction h with
  | nil => exact h'
  | inner ht _ ih => exact .other ht.isOpener ih
  | group ho hc hinner _ _ ih =>
      rw [List.append_assoc]
      exact .group ho hc hinner ih

theorem Balanced.matched (h : Balanced ts) : Matched ts :=
  List.append_nil ts ▸ h.matched_append .nil

namespace Matched

/-- Behind any token the brackets still match. -/
theorem tail (h : Matched (t :: ts)) : Matched ts := by
  generalize hcons : t :: ts = us at h
  cases h with
  | nil => cases hcons
  | other _ h =>
      cases hcons
      exact h
  | group _ hc hinner h =>
      obtain ⟨-, rfl⟩ := List.cons.inj hcons
      exact hinner.matched_append (.other (isOpener_of_closes? hc) h)

theorem of_suffix (h : Matched ts) (hus : us <:+ ts) : Matched us := by
  induction ts with
  | nil => exact List.suffix_nil.mp hus ▸ h
  | cons t ts ih =>
      rcases List.suffix_cons_iff.mp hus with rfl | hus
      · exact h
      · exact ih h.tail hus

/-- An opening bracket begins a group. -/
theorem exists_group (h : Matched (t :: ts)) (ht : t.isOpener = true) :
    ∃ k inner c us, t.opens? = some k ∧ c.closes? = some k ∧ Balanced inner ∧
      ts = inner ++ c :: us ∧ Matched us := by
  generalize hcons : t :: ts = us at h
  cases h with
  | nil => cases hcons
  | other hother _ =>
      cases hcons
      rw [ht] at hother
      cases hother
  | group ho hc hinner h =>
      obtain ⟨rfl, rfl⟩ := List.cons.inj hcons
      exact ⟨_, _, _, _, ho, hc, hinner, rfl, h⟩

end Matched

namespace Ongoing

theorem of_cons (h : Ongoing (t :: ts)) (ht : t.isOpener = false) : t.IsInner ∧ Ongoing ts := by
  generalize hcons : t :: ts = us at h
  cases h with
  | nil => cases hcons
  | inner hinner _ h =>
      cases hcons
      exact ⟨hinner, h⟩
  | group ho _ _ _ _ =>
      obtain ⟨rfl, -⟩ := List.cons.inj hcons
      rw [isOpener_of_opens? ho] at ht
      cases ht

/-- An opening bracket begins a group, and it is no brace. -/
theorem exists_group (h : Ongoing (t :: ts)) (ht : t.isOpener = true) :
    ∃ k inner c us, t.opens? = some k ∧ c.closes? = some k ∧ Balanced inner ∧
      ts = inner ++ c :: us ∧ Ongoing us := by
  generalize hcons : t :: ts = us at h
  cases h with
  | nil => cases hcons
  | inner hinner _ _ =>
      cases hcons
      rw [hinner.isOpener] at ht
      cases ht
  | group ho _ hc hinner h =>
      obtain ⟨rfl, rfl⟩ := List.cons.inj hcons
      exact ⟨_, _, _, _, ho, hc, hinner, rfl, h⟩

end Ongoing

/-! ### Contained headers -/

namespace Run

/-- Behind the token a reader takes an opening bracket for its own: behind a `*` or a `::` as a
token like any other, and behind a `!` as the group of a macro.  If no token follows, the brace of
the body does, which is the only brace to follow. -/
def exposes (t : Token) (next : Option Token) : Bool :=
  (t.isPunct "*" || t.isPunct "::") && next.all (·.isOpener) || t.isPunct "!" && next.isNone

/-- How many angle brackets are open behind a token. -/
def openBehind (angles : Nat) (t : Token) : Nat :=
  if t.isPunct "<" then angles + 1 else if t.isPunct ">" then angles - 1 else angles

/-- A header keeps a reader in front of the body.  Outside of brackets, every angle bracket is
closed, where `angles` are open at the start, and no token exposes what follows it. -/
def isContained : (brackets angles : Nat) → List Token → Bool
  | _, angles, [] => angles == 0
  | brackets, angles, t :: ts =>
    if t.isOpener then isContained (brackets + 1) angles ts
    else if 0 < brackets then isContained (if t.isCloser then brackets - 1 else brackets) angles ts
    else !exposes t ts.head? && isContained 0 (openBehind angles t) ts

theorem isContained_balanced_append (h : Balanced ts) (brackets angles : Nat) (rest : List Token) :
    isContained (brackets + 1) angles (ts ++ rest) = isContained (brackets + 1) angles rest := by
  induction h generalizing brackets rest with
  | nil => rfl
  | inner ht _ ih =>
      rw [List.cons_append, isContained, ht.isOpener, ht.isCloser]
      exact ih brackets rest
  | group ho hc _ _ ihinner ih =>
      rw [List.append_assoc, List.cons_append, isContained, if_pos (isOpener_of_opens? ho),
        ihinner, List.cons_append, isContained, isOpener_of_closes? hc, isCloser_of_closes? hc]
      exact ih brackets rest

theorem isContained_group (angles : Nat) (ho : o.opens? = some k) (hc : c.closes? = some k)
    (hinner : Balanced inner) :
    isContained 0 angles (o :: (inner ++ c :: rest)) = isContained 0 angles rest := by
  rw [isContained, if_pos (isOpener_of_opens? ho), isContained_balanced_append hinner, isContained,
    isOpener_of_closes? hc, isCloser_of_closes? hc]
  rfl

theorem isContained_cons {angles : Nat} (ht : t.isOpener = false) :
    isContained 0 angles (t :: ts) =
      (!exposes t ts.head? && isContained 0 (openBehind angles t) ts) := by
  rw [isContained, ht]
  rfl

end Run

/-! ### Runs, token by token -/

/-- Inside of brackets a balanced run has no end of a type. -/
theorem Balanced.untilEnd_append (h : Balanced ts) (brackets angles : Nat) (rest : List Token) :
    Run.untilEnd (brackets + 1) angles (ts ++ rest) =
      ahead ts (Run.untilEnd (brackets + 1) angles rest) := by
  induction h generalizing brackets rest with
  | nil => rfl
  | inner ht _ ih =>
      rw [List.cons_append, Run.untilEnd, ht.isOpener, ht.isCloser, if_neg (by simp),
        if_neg (by simp), if_pos (Nat.succ_pos _), if_neg (by simp), ih]
      rfl
  | group ho hc _ _ ihinner ih =>
      rw [List.append_assoc, List.cons_append, Run.untilEnd, if_neg (by simp),
        if_pos (isOpener_of_opens? ho), ihinner, List.cons_append, Run.untilEnd, if_neg (by simp),
        isOpener_of_closes? hc, isCloser_of_closes? hc, if_neg (by simp),
        if_pos (Nat.succ_pos _), if_pos rfl, Nat.add_sub_cancel, ih]
      simp [ahead, Run.onto]

namespace Run

/-- No bracket but a brace ends a type. -/
theorem endsType_of_opens? {o : Token} {k : Bracket} (ho : o.opens? = some k) (hk : k ≠ .curly) :
    endsType o = false := by
  obtain ⟨l, rfl⟩ := eq_mark_of_opens? ho
  cases k with
  | curly => exact absurd rfl hk
  | round => rfl
  | square => rfl

/-- A token that does not end the type is a part of the run. -/
theorem untilEnd_inner {opened : Nat} (ht : t.isOpener = false)
    (hend : ¬ (opened = 0 ∧ endsType t = true)) :
    untilEnd 0 opened (t :: ts) = onto t (untilEnd 0 (openBehind opened t) ts) := by
  rw [untilEnd, if_neg fun h => hend h.2, ht, openBehind]
  simp only [Bool.false_eq_true, if_false, Nat.lt_irrefl]
  split
  · rfl
  split
  · rfl
  · rfl

/-- An angle bracket that does not end the run is a part of it, like any other token. -/
theorem angles?_inner {opened : Nat} (ht : t.isOpener = false)
    (hend : ¬ (t.isPunct ">" = true ∧ opened = 0)) :
    angles? 0 (opened + 1) (t :: ts) =
      (angles? 0 (openBehind (opened + 1) t) ts).map (onto t) := by
  rw [angles?, ht, openBehind]
  simp only [Bool.false_eq_true, if_false, Nat.lt_irrefl]
  split
  · rfl
  split
  · rename_i hgreater
    exact if_neg fun h => hend ⟨hgreater, by omega⟩
  · rfl

end Run

/-! ### Regions -/

/-- The tokens that a reader is to stay in: all that there are, or a header whose body begins on a
line. -/
inductive Region
  | whole
  | header (line : Nat)

namespace Region

variable {p : Region} {angles : Nat}

/-- What stands behind the tokens of a region. -/
def beyond : Region → List Token → List Token
  | whole, _ => []
  | header line, rest => mark line "\x7b" :: rest

/-- The first token behind those of a region, if there is one for sure. -/
def first? : Region → Option Token
  | whole => none
  | header line => some (mark line "\x7b")

/-- The next token. -/
def next? (p : Region) (ts : List Token) : Option Token := ts.head?.or p.first?

/-- The invariant of a region, with some angle brackets open. -/
def Holds : Region → (angles : Nat) → List Token → Prop
  | whole, _, ts => Matched ts
  | header _, angles, ts => Ongoing ts ∧ Run.isContained 0 angles ts = true

/-- What a fault may leave. -/
def Leaves : Region → List Token → Prop
  | whole, ts => Matched ts
  | header _, ts => Ongoing ts

@[simp] theorem next?_cons : p.next? (t :: ts) = some t := rfl

@[simp] theorem next?_nil_whole : whole.next? [] = none := rfl

@[simp] theorem next?_nil_header (line : Nat) :
    (header line).next? [] = some (mark line "\x7b") := rfl

theorem head?_append_beyond (p : Region) (ts rest : List Token) :
    (ts ++ p.beyond rest).head? = p.next? ts := by
  cases ts with
  | nil => cases p <;> rfl
  | cons t ts => rfl

theorem getElem?_append_beyond (p : Region) (t : Token) (ts rest : List Token) :
    (t :: ts ++ p.beyond rest)[1]? = p.next? ts := by
  rw [List.cons_append, List.getElem?_cons_succ, ← List.head?_eq_getElem?, head?_append_beyond]

/-- A mark that is no brace is one of the tokens of the region. -/
theorem exists_cons (h : (p.next? ts).any (·.isPunct text) = true) (htext : text ≠ "\x7b") :
    ∃ l us, ts = mark l text :: us := by
  cases ts with
  | cons t ts =>
      obtain ⟨l, rfl⟩ := exists_mark (by simpa using h)
      exact ⟨l, ts, rfl⟩
  | nil =>
      cases p with
      | whole => simp at h
      | header line => exact absurd (by simpa using h) htext.symm

/-- A name is one of the tokens of the region. -/
theorem exists_word (h : (p.next? ts).any (·.isIdent text) = true) :
    ∃ t us, ts = t :: us ∧ t.kind ≠ .punct := by
  cases ts with
  | cons t ts => exact ⟨t, ts, rfl, isWord_of_isIdent (by simpa using h)⟩
  | nil =>
      cases p with
      | whole => simp at h
      | header line => simp at h

namespace Holds

theorem leaves (h : p.Holds angles ts) : p.Leaves ts := by
  cases p with
  | whole => exact h
  | header line => exact h.1

theorem leaves_tail (h : p.Holds angles (t :: ts)) (ht : t.isOpener = false) : p.Leaves ts := by
  cases p with
  | whole => exact h.tail
  | header line => exact (h.1.of_cons ht).2

/-- Behind an angle bracket one more or one less is open. -/
theorem next (h : p.Holds angles (t :: ts)) (ht : t.isOpener = false) :
    p.Holds (Run.openBehind angles t) ts := by
  cases p with
  | whole => exact h.tail
  | header line =>
      have hcontained := h.2
      rw [Run.isContained_cons ht, Bool.and_eq_true] at hcontained
      exact ⟨(h.1.of_cons ht).2, hcontained.2⟩

theorem tail (h : p.Holds angles (t :: ts)) (ht : t.isOpener = false)
    (hless : t.isPunct "<" = false) (hgreater : t.isPunct ">" = false) : p.Holds angles ts := by
  simpa [Run.openBehind, hless, hgreater] using h.next ht

/-- A word is no bracket of any kind. -/
theorem word (h : p.Holds angles (t :: ts)) (hkind : t.kind ≠ .punct) : p.Holds angles ts :=
  h.tail (isInner_of_kind_ne hkind).isOpener (isPunct_of_kind hkind _) (isPunct_of_kind hkind _)

theorem less {l : Nat} (h : p.Holds angles (mark l "<" :: ts)) : p.Holds (angles + 1) ts :=
  h.next rfl

theorem greater {l : Nat} (h : p.Holds (angles + 1) (mark l ">" :: ts)) : p.Holds angles ts :=
  h.next rfl

theorem exists_group (h : p.Holds angles (t :: ts)) (ht : t.isOpener = true) :
    ∃ k inner c us, t.opens? = some k ∧ c.closes? = some k ∧ Balanced inner ∧
      ts = inner ++ c :: us ∧ p.Holds angles us := by
  cases p with
  | whole => exact Matched.exists_group h ht
  | header line =>
      obtain ⟨k, inner, c, us, ho, hc, hinner, rfl, hus⟩ := h.1.exists_group ht
      exact ⟨k, inner, c, us, ho, hc, hinner, rfl, hus,
        (Run.isContained_group angles ho hc hinner) ▸ h.2⟩

/-- No angle bracket is open at the end of a header. -/
theorem ne_nil {line : Nat} (h : (header line).Holds (angles + 1) ts) : ts ≠ [] := by
  rintro rfl
  exact absurd h.2 (by simp [Run.isContained])

end Holds

/-- A token may be taken, whatever it is: in a header it is there, and it is no opening bracket. -/
def Starts : Region → List Token → Prop
  | whole, _ => True
  | header _, ts => ∃ t us, ts = t :: us ∧ t.isOpener = false

theorem starts_word (hkind : t.kind ≠ .punct) : p.Starts (t :: ts) := by
  cases p with
  | whole => trivial
  | header line => exact ⟨t, ts, rfl, (isInner_of_kind_ne hkind).isOpener⟩

theorem Holds.leaves_of_starts (h : p.Holds angles (t :: ts)) (hstarts : p.Starts (t :: ts)) :
    p.Leaves ts := by
  cases p with
  | whole => exact Matched.tail h
  | header line =>
      obtain ⟨u, us, hcons, hu⟩ := hstarts
      obtain ⟨rfl, rfl⟩ := List.cons.inj hcons
      exact h.leaves_tail hu

/-- A `*` and a `::` stand in front of a token that may be taken. -/
theorem Holds.starts {l : Nat} (h : p.Holds angles (mark l text :: ts))
    (htext : text = "*" ∨ text = "::") : p.Starts ts := by
  cases p with
  | whole => trivial
  | header line =>
      have hopener : (mark l text).isOpener = false := by
        rcases htext with rfl | rfl <;> rfl
      have hcontained := h.2
      rw [Run.isContained_cons hopener, Bool.and_eq_true, Run.exposes] at hcontained
      cases ts with
      | nil => rcases htext with rfl | rfl <;> simp at hcontained
      | cons t ts =>
          refine ⟨t, ts, rfl, ?_⟩
          rcases htext with rfl | rfl <;> simpa using hcontained.1

/-- The group of a macro is not the body. -/
theorem Holds.exists_macro {l : Nat} (h : p.Holds angles (mark l "!" :: ts))
    (hopener : (p.next? ts).any (·.isOpener) = true) :
    ∃ t us, ts = t :: us ∧ t.isOpener = true := by
  cases ts with
  | cons t ts => exact ⟨t, ts, rfl, by simpa using hopener⟩
  | nil =>
      cases p with
      | whole => simp at hopener
      | header line =>
          have hcontained := h.2
          rw [Run.isContained_cons rfl] at hcontained
          simp [Run.exposes] at hcontained

/-- The tokens of a region that are left when at least one is taken. -/
def Behind (p : Region) (angles : Nat) (ts us : List Token) : Prop :=
  p.Holds angles us ∧ us.length < ts.length

/-! ### Runs of a region -/

variable {line opened : Nat}

/-- In a header, a run up to the end of a type ends in front of the body. -/
theorem exists_untilEnd_header (hts : Ongoing ts)
    (hcontained : Run.isContained 0 (angles + opened) ts = true) :
    ∃ run us, run ++ us = ts ∧ (header line).Holds angles us ∧ ∀ rest,
      Run.untilEnd 0 opened (ts ++ (header line).beyond rest) =
        (run, us ++ (header line).beyond rest) := by
  induction hts generalizing opened with
  | nil =>
      obtain ⟨rfl, rfl⟩ : angles = 0 ∧ opened = 0 := by simpa [Run.isContained] using hcontained
      exact ⟨[], [], rfl, ⟨.nil, rfl⟩, fun rest => rfl⟩
  | @inner t ts ht hsemicolon hts ih =>
      by_cases hend : opened = 0 ∧ Run.endsType t = true
      · obtain ⟨rfl, hend⟩ := hend
        refine ⟨[], t :: ts, rfl, ⟨.inner ht hsemicolon hts, hcontained⟩, fun rest => ?_⟩
        rw [List.cons_append, Run.untilEnd, if_pos ⟨rfl, rfl, hend⟩]
      · -- the angle brackets that the run has opened are counted apart from those before it
        have hcount : Run.openBehind (angles + opened) t = angles + Run.openBehind opened t := by
          unfold Run.openBehind
          split
          · rfl
          split
          · rename_i hgreater
            have hopened : opened ≠ 0 := fun h => hend ⟨h, by simp [Run.endsType, hgreater]⟩
            omega
          · rfl
        rw [Run.isContained_cons ht.isOpener, Bool.and_eq_true, hcount] at hcontained
        obtain ⟨run, us, rfl, hus, hrun⟩ := ih hcontained.2
        refine ⟨t :: run, us, rfl, hus, fun rest => ?_⟩
        rw [List.cons_append, Run.untilEnd_inner ht.isOpener hend, hrun]
        rfl
  | @group o c k inner ts ho hk hc hinner hts ih =>
      rw [List.cons_append, Run.isContained_group _ ho hc hinner] at hcontained
      obtain ⟨run, us, rfl, hus, hrun⟩ := ih hcontained
      refine ⟨o :: (inner ++ c :: run), us, by simp, hus, fun rest => ?_⟩
      have hend : Run.endsType o = false := Run.endsType_of_opens? ho hk
      rw [List.cons_append, List.cons_append, List.append_assoc, Run.untilEnd,
        if_neg (by simp [hend]), if_pos (isOpener_of_opens? ho), hinner.untilEnd_append,
        List.cons_append, Run.untilEnd, if_neg (by simp), isOpener_of_closes? hc,
        isCloser_of_closes? hc, if_neg (by simp), if_pos Nat.one_pos, if_pos rfl, hrun]
      simp [Balanced.ahead, Run.onto]

/-- A run up to the end of a type is one of the tokens of the region. -/
theorem exists_untilEnd (h : p.Holds angles ts) :
    ∃ run us, run ++ us = ts ∧ p.Holds angles us ∧ ∀ rest,
      Run.untilEnd 0 0 (ts ++ p.beyond rest) = (run, us ++ p.beyond rest) := by
  cases p with
  | header line => exact exists_untilEnd_header h.1 h.2
  | whole =>
      have hsplit := Run.untilEnd_append 0 0 ts
      have hsuffix : (Run.untilEnd 0 0 ts).2 <:+ ts := ⟨_, hsplit⟩
      refine ⟨_, _, hsplit, Matched.of_suffix h hsuffix, fun rest => ?_⟩
      rw [beyond, List.append_nil, List.append_nil]

/-- In a header, open angle brackets are closed in front of the body. -/
theorem exists_angles (hts : Ongoing ts) (hcontained : Run.isContained 0 (opened + 1) ts = true) :
    ∃ run us, run ++ us = ts ∧ (header line).Holds 0 us ∧ ∀ rest,
      Run.angles? 0 (opened + 1) (ts ++ (header line).beyond rest) =
        some (run, us ++ (header line).beyond rest) := by
  induction hts generalizing opened with
  | nil => simp [Run.isContained] at hcontained
  | @inner t ts ht hsemicolon hts ih =>
      rw [Run.isContained_cons ht.isOpener, Bool.and_eq_true] at hcontained
      by_cases hlast : t.isPunct ">" = true ∧ opened = 0
      · obtain ⟨hgreater, rfl⟩ := hlast
        obtain ⟨l, rfl⟩ := exists_mark hgreater
        exact ⟨[mark l ">"], ts, rfl, ⟨hts, hcontained.2⟩, fun rest => rfl⟩
      · have hcount : ∃ n, Run.openBehind (opened + 1) t = n + 1 := by
          unfold Run.openBehind
          split
          · exact ⟨_, rfl⟩
          split
          · rename_i hgreater
            have hopened : opened ≠ 0 := fun h => hlast ⟨hgreater, h⟩
            exact ⟨opened - 1, by omega⟩
          · exact ⟨_, rfl⟩
        obtain ⟨n, hn⟩ := hcount
        rw [hn] at hcontained
        obtain ⟨run, us, rfl, hus, hrun⟩ := ih hcontained.2
        refine ⟨t :: run, us, rfl, hus, fun rest => ?_⟩
        rw [List.cons_append, Run.angles?_inner ht.isOpener hlast, hn, hrun]
        rfl
  | @group o c k inner ts ho hk hc hinner hts ih =>
      rw [List.cons_append, Run.isContained_group _ ho hc hinner] at hcontained
      obtain ⟨run, us, rfl, hus, hrun⟩ := ih hcontained
      refine ⟨o :: (inner ++ c :: run), us, by simp, hus, fun rest => ?_⟩
      rw [List.cons_append, List.cons_append, List.append_assoc, Run.angles?,
        if_pos (isOpener_of_opens? ho), hinner.angles?_append, List.cons_append, Run.angles?,
        isOpener_of_closes? hc, isCloser_of_closes? hc]
      simp only [Bool.false_eq_true, if_false, Nat.zero_lt_succ, if_true, Nat.add_sub_cancel, hrun]
      simp [Balanced.ahead, Run.onto]

end Region

end ConversionClosure
