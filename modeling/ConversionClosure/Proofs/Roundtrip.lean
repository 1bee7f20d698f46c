/-
Reading the text of a type that was read.

A type that a text is parsed as is parsed again of its own text, if the tokens of the first text are
tidy.  Neighbours among them must not run together: a token may be kept as a part of a type's text,
and there it is written with no blank between it and most of its neighbours.  And a type that stands
in parentheses must be told from what is around it without them, as they are not written.

The proof follows the reader.  `Yields` says what holds where a reader comes to an end, and whatever
a reader yields is read back.  The induction is on the fuel of the reader.
-/
import Mathlib.Data.List.Infix
import ConversionClosure.Proofs.Readback

namespace ConversionClosure

open Text Token

variable {left : Nat} {ts us run rest inner : List Token} {t u o c : Token}

/-! ### Tidy tokens -/

namespace Token

/-- The two tokens may stand next to each other.  They do not run together, nor does the first one
with an angle bracket that is written behind it when the second one is not, and no mark in front of
a path hides a word that begins another type. -/
def Neighbors (t u : Token) : Prop :=
  t.Meets u ∧ (t.runsInto '>' = true → ∀ text ∈ [",", ">", ")"], u.isPunct text = false) ∧
    (t.isPunct "::" = true → u.kind = .ident → u.text ∉ Reference.reservedStarts)

instance (t u : Token) : Decidable (t.Neighbors u) :=
  inferInstanceAs (Decidable (_ ∧ _))

/-- The tokens may stand without the parentheses around them: they leave no angle bracket open, they
do not begin with `mut`, and they are no word with a colon, which would begin a bound. -/
def StandsBare (inner : List Token) : Prop :=
  Run.opened 0 0 inner = 0 ∧ inner.head?.any (·.isIdent "mut") = false ∧
    ¬ (inner.length = 2 ∧ inner[1]?.any (·.isPunct ":") = true)

instance (inner : List Token) : Decidable (StandsBare inner) :=
  inferInstanceAs (Decidable (_ ∧ _))

/-- The tokens may be written again: neighbours may stand next to each other, and what stands in
parentheses may stand without them, if it is a type. -/
def Tidy (ts : List Token) : Prop :=
  ts.IsChain Neighbors ∧ ∀ us ∈ ts.tails, us.head?.any (·.isPunct "(") = true →
    ∀ split ∈ Run.group? us, (Reference.ofTokens (Run.inside split.1)).toOption.isSome →
      StandsBare (Run.inside split.1)

instance (ts : List Token) : Decidable (Tidy ts) :=
  inferInstanceAs (Decidable (_ ∧ _))

end Token

theorem Run.closing_append_eq_some {depth : Nat} {after : List Token}
    (h : closing depth ts = some (run, after)) (more : List Token) :
    closing depth (ts ++ more) = some (run, after ++ more) := by
  induction ts generalizing depth run with
  | nil => cases h
  | cons t ts ih =>
      have hmap : ∀ {depth}, (closing depth ts).map (onto t) = some (run, after) →
          (closing depth (ts ++ more)).map (onto t) = some (run, after ++ more) := by
        intro depth hsplit
        obtain ⟨split, hmore, heq⟩ := Option.map_eq_some_iff.mp hsplit
        obtain ⟨run', after'⟩ := split
        obtain ⟨rfl, rfl⟩ := Prod.mk.inj heq
        rw [ih hmore]
        rfl
      rw [closing] at h
      rw [List.cons_append, closing]
      split
      · rename_i hopener
        rw [if_pos hopener] at h
        exact hmap h
      rename_i hopener
      rw [if_neg hopener] at h
      split
      · rename_i hcloser
        rw [if_pos hcloser] at h
        split
        · rename_i hdepth
          rw [if_pos hdepth] at h
          obtain ⟨rfl, rfl⟩ := Prod.mk.inj (Option.some.inj h)
          rfl
        · rename_i hdepth
          rw [if_neg hdepth] at h
          exact hmap h
      · rename_i hcloser
        rw [if_neg hcloser] at h
        exact hmap h

theorem Run.group?_append_eq_some {after : List Token} (h : group? ts = some (run, after))
    (more : List Token) : group? (ts ++ more) = some (run, after ++ more) := by
  cases ts with
  | nil => cases h
  | cons t ts =>
      rw [group?] at h
      rw [List.cons_append, group?]
      split
      · rename_i hopener
        rw [if_pos hopener] at h
        obtain ⟨⟨run', after'⟩, hmore, heq⟩ := Option.map_eq_some_iff.mp h
        obtain ⟨rfl, rfl⟩ := Prod.mk.inj heq
        rw [closing_append_eq_some hmore]
        rfl
      · rename_i hopener
        rw [if_neg hopener] at h
        cases h

/-- Each stretch of tidy tokens is tidy. -/
theorem Token.Tidy.of_stretch (h : Tidy ts) (hus : us <:+: ts) : Tidy us := by
  obtain ⟨before, after, rfl⟩ := hus
  refine ⟨h.1.left_of_append.right_of_append, fun vs hvs hhead split hsplit htype => ?_⟩
  have hsuffix : vs ++ after ∈ (before ++ us ++ after).tails := by
    obtain ⟨front, rfl⟩ := (List.mem_tails _ _).mp hvs
    exact (List.mem_tails _ _).mpr ⟨before ++ front, by simp⟩
  have hopens : (vs ++ after).head?.any (·.isPunct "(") = true := by
    cases vs with
    | nil => simp at hhead
    | cons v vs => exact hhead
  have hgroup : Run.group? (vs ++ after) = some (split.1, split.2 ++ after) :=
    Run.group?_append_eq_some hsplit after
  exact h.2 _ hsuffix hopens (split.1, split.2 ++ after) (Option.mem_def.mpr hgroup) htype

/-- Tokens as the lexer makes them, with brackets that match, that may be written again. -/
structure Regular (ts : List Token) : Prop where
  balanced : Balanced ts
  stays : ∀ t ∈ ts, t.Stays
  fits : AllFit ts
  tidy : Tidy ts

namespace Regular

variable {k : Bracket}

theorem of_stretch (h : Regular ts) (hus : us <:+: ts) (hbalanced : Balanced us) : Regular us where
  balanced := hbalanced
  stays t ht := h.stays t (hus.subset ht)
  fits t ht := h.fits t (hus.subset ht)
  tidy := h.tidy.of_stretch hus

theorem of_suffix (h : Regular (run ++ rest)) (hrest : Balanced rest) : Regular rest :=
  h.of_stretch ⟨run, [], by simp⟩ hrest

theorem tail (h : Regular (t :: ts)) (ht : t.isOpener = false) : Regular ts :=
  h.of_stretch ⟨[t], [], by simp⟩ (h.balanced.of_cons ht).2

theorem written (h : Regular ts) : Written ts :=
  ⟨h.stays, h.tidy.1.imp fun _ _ hneighbors => hneighbors.1⟩

/-- A run at the front is written as it stands. -/
theorem written_front (h : Regular (run ++ rest)) : Written run :=
  h.written.of_stretch ⟨[], rest, by simp⟩

/-- An opening bracket begins a group. -/
theorem exists_group (h : Regular (o :: ts)) (ho : o.isOpener = true) :
    ∃ k inner c us, o.opens? = some k ∧ c.closes? = some k ∧ ts = inner ++ c :: us ∧
      Regular inner ∧ Regular us ∧ Written (o :: (inner ++ [c])) := by
  obtain ⟨k, inner, c, us, ho, hc, hinner, rfl, hus⟩ := h.balanced.exists_group ho
  refine ⟨k, inner, c, us, ho, hc, rfl, h.of_stretch ⟨[o], c :: us, by simp⟩ hinner,
    h.of_stretch ⟨o :: (inner ++ [c]), [], by simp⟩ hus, ?_⟩
  exact h.written.of_stretch ⟨[], us, by simp⟩

/-- Where a comma, an angle bracket or a parenthesis follows, an angle bracket may. -/
theorem runsInto_last {l : Nat} {text : String} (h : Regular (run ++ mark l text :: us))
    (htext : text ∈ [",", ">", ")"]) : ∀ t ∈ run.getLast?, t.runsInto '>' = false := by
  intro t ht
  have hneighbors := (List.isChain_append.mp h.tidy.1).2.2 t ht (mark l text) rfl
  rw [Bool.eq_false_iff]
  intro hruns
  have hnot := hneighbors.2.1 hruns text htext
  rw [isPunct_mark, beq_self_eq_true] at hnot
  cases hnot

end Regular

theorem Token.exists_mark_cons {text : String} (h : ts[0]?.any (·.isPunct text) = true) :
    ∃ l us, ts = mark l text :: us := by
  cases ts with
  | nil => cases h
  | cons t us =>
      obtain ⟨l, rfl⟩ := exists_mark (show t.isPunct text = true by simpa using h)
      exact ⟨l, us, rfl⟩

/-! ### What a reader yields -/

namespace TokenReader

variable {α β : Type} {x : TokenReader α} {mid post : α → List Token → Prop}
  {last : β → List Token → Prop}

/-- What the reader reads of the tokens, and what it leaves of them, is as `post` says. -/
def Yields (x : TokenReader α) (ts : List Token) (post : α → List Token → Prop) : Prop :=
  ∀ a us, x ts = .ok a us → post a us

namespace Yields

theorem pure {a : α} (h : post a ts) : Yields (Pure.pure a) ts post := by
  rintro _ _ ⟨⟩
  exact h

theorem throw {fault : TypeFault} : Yields (MonadExcept.throw fault : TokenReader α) ts post := by
  rintro _ _ ⟨⟩

theorem bind {f : α → TokenReader β} (hx : Yields x ts mid)
    (hf : ∀ a us, mid a us → Yields (f a) us last) : Yields (x >>= f) ts last := by
  intro b vs hread
  rw [bind_apply] at hread
  cases hrun : x ts with
  | ok a us =>
      rw [hrun] at hread
      exact hf a us (hx a us hrun) b vs hread
  | error fault us =>
      rw [hrun] at hread
      cases hread

theorem throw_bind {fault : TypeFault} {f : α → TokenReader β} :
    Yields (MonadExcept.throw fault >>= f) ts last := by
  rintro _ _ ⟨⟩

/-- Behind a reader that comes to one end for sure. -/
theorem ok_bind {a : α} {f : α → TokenReader β} (hx : x ts = .ok a us)
    (h : Yields (f a) us last) : Yields (x >>= f) ts last := by
  intro b vs hread
  rw [bind_apply, hx] at hread
  exact h b vs hread

theorem with_read (h : Yields x ts post) : Yields x ts fun a us => x ts = .ok a us ∧ post a us :=
  fun a us hread => ⟨hread, h a us hread⟩

theorem mono (h : Yields x ts mid) (hpost : ∀ a us, mid a us → post a us) : Yields x ts post :=
  fun a us hread => hpost a us (h a us hread)

/-- Inside of a group. -/
theorem within (h : Yields x inner mid) :
    Yields (TokenReader.within inner x) ts fun a us => us = ts ∧ ∃ vs, mid a vs := by
  intro a us hread
  rw [TokenReader.within] at hread
  cases hrun : x inner with
  | ok b vs =>
      rw [hrun] at hread
      cases hread
      exact ⟨rfl, vs, h a vs hrun⟩
  | error fault vs =>
      rw [hrun] at hread
      cases hread

theorem expect (text : String) :
    Yields (TokenReader.expect text) ts fun _ us => ∃ l, ts = mark l text :: us := by
  cases ts with
  | nil =>
      rintro _ _ ⟨⟩
  | cons t ts =>
      unfold TokenReader.expect
      refine .ok_bind rfl ?_
      split
      · rename_i hpunct
        obtain ⟨l, rfl⟩ := exists_mark hpunct
        exact .pure ⟨l, rfl⟩
      · exact .throw

/-- A run up to the end of a type. -/
theorem untilEnd (h : Balanced ts) :
    Yields TokenReader.untilEnd ts fun run rest => ∃ left, ts = run ++ rest ∧ Balanced rest ∧
      run ≠ [] ∧ Passes 0 run left ∧ (rest = [] ∨ left = 0) := by
  obtain ⟨run, rest, left, hts, hrest, hpasses, hrun, hleft⟩ := h.exists_passes 0
  intro run' rest' hread
  rw [untilEnd_apply, hrun] at hread
  dsimp only at hread
  split at hread
  · cases hread
  · rename_i hne
    cases hread
    exact ⟨left, hts, hrest, by simpa using hne, hpasses, hleft⟩

end Yields

end TokenReader

namespace Reference

open TokenReader

variable {fuel : Nat} {r a : Reference} {args : List Reference} {done : List String}
  {segment : String}

/-- Of the tokens in front of `rest` the type was read, and it is read back. -/
def TypeRead (ts : List Token) (r : Reference) (rest : List Token) : Prop :=
  ∃ run left, ts = run ++ rest ∧ Balanced rest ∧ (left = 0 ∨ rest = []) ∧ Rereads left run r

/-- Of the tokens in front of `rest` the path was read behind some segments, and it is read back. -/
def PathRead (done : List String) (ts : List Token) (r : Reference) (rest : List Token) : Prop :=
  ∃ run left, ts = run ++ rest ∧ Balanced rest ∧ (left = 0 ∨ rest = []) ∧
    PathRereads done left run r

/-- Of all the tokens the elements of a tuple were read, and they are read back; a single one without
a comma is what the tokens are by themselves. -/
def ElementsRead (ts : List Token) (found : List Reference × Bool) (rest : List Token) : Prop :=
  rest = [] ∧ Elements ts found.1 found.2 ∧ ∀ r, found = ([r], false) → ofTokens ts = .ok r

/-- Of the tokens in front of `rest` an argument was read.  It is read back if `rest` begins with what
ends an argument. -/
def ArgumentRead (ts : List Token) (a : Reference) (rest : List Token) : Prop :=
  ∃ run, ts = run ++ rest ∧ Balanced rest ∧ (Closes rest → Spans 0 run ∧ IsArgument a)

/-- Of the tokens in front of `rest` arguments were read up to the closing angle bracket, and they
are read back. -/
def ArgumentsRead (ts : List Token) (args : List Reference) (rest : List Token) : Prop :=
  ∃ run, ts = run ++ rest ∧ Balanced rest ∧ (∀ l, Spans 0 (mark l "<" :: run)) ∧
    ∀ a ∈ args, IsArgument a

/-- With fuel for the tokens, all that the readers read of them is read back. -/
structure RereadAll (fuel : Nat) : Prop where
  readType : ∀ {ts}, Regular ts → 3 * ts.length + 2 ≤ fuel →
    Yields (readType fuel) ts (TypeRead ts)
  readElements : ∀ {ts}, Regular ts → 3 * ts.length + 3 ≤ fuel →
    Yields (readElements fuel) ts (ElementsRead ts)
  readPath : ∀ {ts done}, Regular ts → 3 * ts.length + 1 ≤ fuel →
    Yields (readPath fuel done) ts (PathRead done ts)
  readArguments : ∀ {ts}, Regular ts → 3 * ts.length + 3 ≤ fuel →
    Yields (readArguments fuel) ts (ArgumentsRead ts)

theorem rereadAll_zero : RereadAll 0 :=
  ⟨fun _ _ => Yields.throw, fun _ _ => Yields.throw, fun _ _ => Yields.throw,
    fun _ _ => Yields.throw⟩

/-- With fuel for the tokens, a reader comes to the end that it comes to with any more. -/
theorem ofTokens_of_readType (h : Balanced ts) (hfuel : 3 * ts.length + 2 ≤ fuel)
    (hread : readType fuel ts = .ok r []) : ofTokens ts = .ok r := by
  have hwhole : Region.whole.Holds 0 ts := h.matched
  have hreader : reader ts = .ok r [] := by
    cases (settleBelow (ts.length + 1)).readType (Nat.lt_succ_self _) hwhole with
    | ok _ _ heq =>
        have hthis := heq fuel [] hfuel
        have hmore := heq (3 * (ts.length + 1)) [] (by omega)
        simp only [Region.beyond, List.append_nil] at hthis hmore
        rw [reader, hmore, ← hthis, hread]
    | fault _ _ _ heq =>
        have hthis := heq fuel [] hfuel
        simp only [Region.beyond, List.append_nil] at hthis
        rw [hread] at hthis
        cases hthis
  rw [ofTokens, hreader]

/-! ### Elements -/

theorem readElements_yields (ih : RereadAll fuel) (h : Regular ts)
    (hfuel : 3 * ts.length + 3 ≤ fuel + 1) :
    Yields (readElements (fuel + 1)) ts (ElementsRead ts) := by
  unfold readElements
  refine .ok_bind (atEnd_apply ts) ?_
  split
  · rename_i hend
    obtain rfl := List.isEmpty_iff.mp hend
    exact .pure ⟨rfl, .nil, by simp⟩
  refine (ih.readType h (by omega)).with_read.bind ?_
  rintro element us ⟨hread, run, left, rfl, hus, hleft, hreread⟩
  refine .ok_bind (atEnd_apply us) ?_
  split
  · rename_i hend
    obtain rfl := List.isEmpty_iff.mp hend
    rw [List.append_nil] at h hfuel hread ⊢
    refine .pure ⟨rfl, .last hreread, ?_⟩
    rintro _ ⟨⟩
    exact ofTokens_of_readType h.balanced (by omega) hread
  refine (Yields.expect ",").bind ?_
  rintro - us ⟨l, rfl⟩
  obtain rfl : left = 0 := hleft.resolve_right (by simp)
  have hmore : Regular us := (h.of_suffix hus).tail rfl
  refine (ih.readElements hmore (by grind)).bind ?_
  rintro ⟨elements, trailing⟩ vs ⟨rfl, helements, -⟩
  refine .pure ⟨rfl, .cons hreread helements, ?_⟩
  -- a comma stands behind the last element
  rintro r hone
  obtain ⟨⟨-, rfl⟩, rfl⟩ : (element = r ∧ elements = []) ∧ trailing = false := by
    simpa using hone
  cases helements

/-! ### Types -/

/-- A type that is kept as its text up to its end. -/
theorem kept_yields (h : Regular (t :: ts)) (ht : Keeps t) :
    Yields (do return ofText (join (← untilEnd))) (t :: ts) (TypeRead (t :: ts)) := by
  refine (Yields.untilEnd h.balanced).bind ?_
  rintro run rest ⟨left, hts, hrest, hne, hpasses, hleft⟩
  obtain ⟨u, run, rfl⟩ := List.exists_cons_of_ne_nil hne
  rw [hts] at h ⊢
  obtain ⟨rfl, rfl⟩ := List.cons.inj hts
  exact .pure ⟨_, left, rfl, hrest, hleft.symm, .kept ht hpasses h.written_front⟩

theorem readLifetime_yields (h : Regular ts) : Yields readLifetime ts fun lifetime us =>
    ∃ front, ts = front ++ us ∧ Regular us ∧ Spans 0 front ∧
      (lifetime = "" ∨ isLifetime lifetime = true) := by
  unfold readLifetime
  refine .ok_bind (peek?_apply ts) ?_
  cases ts with
  | nil => exact .pure ⟨[], rfl, h, .nil, .inl rfl⟩
  | cons t ts =>
      dsimp only [List.head?_cons]
      split
      · rename_i hkind
        have hkind := eq_of_beq hkind
        have hword : t.kind ≠ .punct := by simp [hkind]
        have hlifetime : t.Fits := h.fits t (by simp)
        rw [Token.Fits, hkind] at hlifetime
        refine .ok_bind (skip_apply _) (.pure ⟨[t], rfl, ?_, Spans.nil.word hword, .inr hlifetime⟩)
        exact h.tail (isInner_of_kind_ne hword).isOpener
      · exact .pure ⟨[], rfl, h, .nil, .inl rfl⟩

theorem head?_any_of_append {p : Token → Bool} (h : (run ++ rest).head?.any p = false) :
    run.head?.any p = false := by
  cases run with
  | nil => rfl
  | cons t run => exact h

/-- A type with tokens in front of it that belong to a form around it. -/
theorem TypeRead.of_append {r' : Reference} (h : TypeRead ts r rest) (front : List Token)
    (hform : ∀ {run left}, ts = run ++ rest → Rereads left run r → Rereads left (front ++ run) r') :
    TypeRead (front ++ ts) r' rest := by
  obtain ⟨run, left, rfl, hrest, hleft, hreread⟩ := h
  exact ⟨front ++ run, left, by simp, hrest, hleft, hform rfl hreread⟩

/-- What stands in square brackets. -/
theorem bracketed_yields (ih : RereadAll fuel) (h : Regular inner)
    (hfuel : 3 * inner.length + 2 ≤ fuel) {k : Bracket} (ho : o.opens? = some k)
    (hc : c.closes? = some k) :
    Yields (bracketed fuel) inner fun r _ => Rereads 0 (o :: (inner ++ [c])) r := by
  unfold bracketed
  refine (ih.readType h hfuel).bind ?_
  rintro element us ⟨run, left, rfl, hus, hleft, hreread⟩
  refine .ok_bind (atEnd_apply us) ?_
  split
  · rename_i hend
    obtain rfl := List.isEmpty_iff.mp hend
    rw [List.append_nil]
    exact .pure (hreread.slice ho hc)
  refine (Yields.expect ";").bind ?_
  rintro - us ⟨l, rfl⟩
  obtain rfl : left = 0 := hleft.resolve_right (by simp)
  have hlength : Regular us := (h.of_suffix hus).tail rfl
  refine .ok_bind (get_apply us) ?_
  dsimp only
  split
  · exact .throw_bind
  · rename_i hne
    exact .pure (hreread.array ho hc hlength.balanced hne hlength.written)

/-- A single type in parentheses is read back without them. -/
theorem grouped_rereads {l : Nat} (h : Regular (mark l "(" :: (inner ++ c :: us)))
    (hc : c.closes? = some .round) (hinner : Balanced inner) (htype : ofTokens inner = .ok r)
    (hreread : Rereads left inner r) : Rereads 0 (mark l "(" :: (inner ++ [c])) r := by
  have hgroup : Run.group? (mark l "(" :: (inner ++ c :: us)) =
      some (mark l "(" :: (inner ++ [c]), us) := Balanced.group?_append rfl hc hinner
  have hbare : StandsBare inner := by
    have hstands := h.tidy.2 _ ((List.mem_tails _ _).mpr List.suffix_rfl) rfl _ hgroup
    rw [Balanced.inside_group, htype] at hstands
    exact hstands rfl
  obtain rfl : left = 0 := by
    have hopened := hreread.spans.opened 0
    rw [hbare.1, Nat.zero_add] at hopened
    exact hopened.symm
  obtain ⟨m, rfl⟩ := eq_mark_of_closes? hc
  refine hreread.grouped rfl rfl hbare.2.1 ?_ ?_
  · rintro t u rfl -
    rw [Bool.eq_false_iff]
    exact fun hcolon => hbare.2.2 ⟨rfl, hcolon⟩
  · intro t ht
    have hlast : (mark l "(" :: inner).getLast? = some t := by
      rw [List.getLast?_cons, Option.mem_def.mp ht]
      rfl
    have hregular : Regular ((mark l "(" :: inner) ++ mark m ")" :: us) := h
    exact hregular.runsInto_last (by decide) t hlast

/-- What stands behind an ampersand. -/
def referenced (fuel : Nat) : TokenReader Reference := do
  let lifetime ← readLifetime
  let exclusive ← atIdent "mut"
  if exclusive then skip
  let inner ← readType fuel
  return { modifier := if exclusive then .exclusive else .shared, args := [inner], lifetime }

theorem referenced_yields {l : Nat} (ih : RereadAll fuel) (h : Regular (mark l "&" :: ts))
    (hfuel : 3 * ts.length + 2 ≤ fuel) :
    Yields (referenced fuel) ts (TypeRead (mark l "&" :: ts)) := by
  unfold referenced
  refine (readLifetime_yields (h.tail rfl)).bind ?_
  rintro lifetime us ⟨front, rfl, hus, hfront, hlifetime⟩
  refine .ok_bind (atIdent_apply "mut" us) ?_
  cases hexclusive : us.head?.any (·.isIdent "mut") with
  | false =>
      refine (ih.readType hus (by grind)).bind fun inner vs hinner => .pure ?_
      refine hinner.of_append (mark l "&" :: front) fun hrun hreread => ?_
      refine hreread.ampersand false ?_ hlifetime fun _ => ?_
      · exact hfront.cons (isInner_mark rfl rfl) rfl rfl
      · exact head?_any_of_append (hrun ▸ hexclusive)
  | true =>
      cases us with
      | nil => cases hexclusive
      | cons u us =>
          have hkind : u.kind ≠ .punct := isWord_of_isIdent (by simpa using hexclusive)
          have hword : Spans 0 (mark l "&" :: (front ++ [u])) :=
            (hfront.append (Spans.nil.word hkind)).cons (isInner_mark rfl rfl) rfl rfl
          have hmore : Regular us := hus.tail (isInner_of_kind_ne hkind).isOpener
          refine .ok_bind (skip_apply _) ?_
          refine (ih.readType hmore (by grind)).bind fun inner vs hinner => .pure ?_
          have hread := hinner.of_append (mark l "&" :: (front ++ [u]))
            fun _ hreread => hreread.ampersand true hword hlifetime (by simp)
          rwa [List.cons_append, List.append_assoc] at hread

/-- What stands behind a star. -/
def pointed (fuel : Nat) : TokenReader Reference := do
  let qualifier ← next
  if qualifier.isIdent "const" then
    return { modifier := .constPointer, args := [← readType fuel] }
  else if qualifier.isIdent "mut" then
    return { modifier := .mutPointer, args := [← readType fuel] }
  else throw (.malformedPointer qualifier.line)

theorem pointed_yields {l : Nat} (ih : RereadAll fuel) (h : Regular (mark l "*" :: ts))
    (hfuel : 3 * ts.length + 2 ≤ fuel) :
    Yields (pointed fuel) ts (TypeRead (mark l "*" :: ts)) := by
  unfold pointed
  cases ts with
  | nil =>
      intro _ _ hread
      cases hread
  | cons u ts =>
      refine .ok_bind (next_cons u ts) ?_
      have hpointer : ∀ exclusive, u.kind ≠ .punct →
          Yields (do return { modifier := star exclusive, args := [← readType fuel] }) ts
            (TypeRead (mark l "*" :: u :: ts)) := by
        intro exclusive hkind
        have hword : Spans 0 [mark l "*", u] :=
          (Spans.nil.word hkind).cons (isInner_mark rfl rfl) rfl rfl
        have hts : Regular ts := (h.tail rfl).tail (isInner_of_kind_ne hkind).isOpener
        exact (ih.readType hts (by grind)).bind fun inner vs hinner =>
          .pure (hinner.of_append [mark l "*", u] fun _ hreread => hreread.star hword)
      split
      · rename_i hconst
        exact hpointer false (isWord_of_isIdent hconst)
      split
      · rename_i hmut
        exact hpointer true (isWord_of_isIdent hmut)
      · exact .throw

/-- What stands in parentheses: a single type, or the elements of a tuple. -/
def parenthesized (fuel : Nat) (inner : List Token) : TokenReader Reference := do
  let (elements, trailing) ← within inner (readElements fuel)
  match elements, trailing with
  | [element], false => return element
  | _, _ => return { modifier := .tuple, args := elements }

theorem parenthesized_yields {l : Nat} (ih : RereadAll fuel)
    (h : Regular (mark l "(" :: (inner ++ c :: us))) (hc : c.closes? = some .round)
    (hinner : Regular inner) (hus : Balanced us) (hfuel : 3 * inner.length + 3 ≤ fuel) :
    Yields (parenthesized fuel inner) us (TypeRead (mark l "(" :: (inner ++ c :: us))) := by
  unfold parenthesized
  refine (Yields.within (ih.readElements hinner hfuel)).bind ?_
  rintro ⟨elements, trailing⟩ vs ⟨hvs, _, -, helements, htype⟩
  obtain rfl : us = vs := hvs.symm
  have hread : ∀ {r}, Rereads 0 (mark l "(" :: (inner ++ [c])) r →
      TypeRead (mark l "(" :: (inner ++ c :: us)) r us := fun hreread =>
    ⟨_, 0, by simp, hus, .inl rfl, hreread⟩
  dsimp only
  split
  · cases helements with
    | last hreread =>
        exact .pure (hread (grouped_rereads h hc hinner.balanced (htype _ rfl) hreread))
    | cons _ hmore => cases hmore
  · rename_i hsingle
    refine .pure (hread (.tuple helements (fun hone => ?_) rfl hc hinner.balanced))
    obtain ⟨element, rfl⟩ := List.length_eq_one_iff.mp hone
    cases trailing with
    | false => exact (hsingle element rfl rfl).elim
    | true => rfl

/-- A type that is one token. -/
theorem single_yields (h : Regular (t :: ts)) (ht : t.isPunct "!" = true ∨ t.isIdent "_" = true) :
    Yields (do
      skip
      return ofText t.text) (t :: ts) (TypeRead (t :: ts)) := by
  have hclosed : t.isOpener = false := by
    rcases ht with hpunct | hname
    · obtain ⟨l, rfl⟩ := exists_mark hpunct
      rfl
    · exact (isInner_of_kind_ne (isWord_of_isIdent hname)).isOpener
  have hrest : Balanced ts := (h.tail hclosed).balanced
  refine .ok_bind (skip_apply _) (.pure ⟨[t], 0, rfl, hrest, .inl rfl, ?_⟩)
  exact .single ht (h.stays t (by simp))

/-- A path with a mark in front of it. -/
theorem PathRead.rooted {l : Nat} (hread : PathRead [] ts r rest)
    (h : Regular (mark l "::" :: ts)) : TypeRead (mark l "::" :: ts) r rest := by
  obtain ⟨run, left, rfl, hrest, hleft, hreread⟩ := hread
  obtain ⟨u, hu, hkind⟩ := hreread.head
  have hplain : u.text ∉ reservedStarts := by
    obtain ⟨run, rfl⟩ := List.head?_eq_some_iff.mp hu
    exact (List.isChain_cons_cons.mp h.tidy.1).1.2.2 rfl hkind
  have hname : u.text ∉ "_" :: verbatimStarts ∧ u.isIdent "mut" = false := by
    simp only [reservedStarts, verbatimStarts, List.mem_cons, not_or] at hplain ⊢
    exact ⟨⟨hplain.1, hplain.2.2⟩, by simp [Token.isIdent, hplain.2.1]⟩
  have hjoint : Joint [mark l "::"] := .inr ⟨l, rfl⟩
  refine ⟨mark l "::" :: run, left, rfl, hrest, hleft, .of_path hreread hjoint ?_ ?_⟩
  · intro v hv
    obtain rfl : u = v := Option.some.inj (hu.symm.trans hv)
    exact hname.1
  · rw [Option.mem_def.mp hu, Option.any_some, hname.2]
    intro hfalse
    cases hfalse

/-- A path that begins with a name. -/
theorem PathRead.named (hread : PathRead [] (t :: ts) r rest)
    (ht : t.text ∉ "_" :: verbatimStarts) : TypeRead (t :: ts) r rest := by
  obtain ⟨run, left, hts, hrest, hleft, hreread⟩ := hread
  obtain ⟨u, hu, -⟩ := hreread.head
  obtain ⟨run, rfl⟩ := List.head?_eq_some_iff.mp hu
  obtain ⟨rfl, -⟩ := List.cons.inj hts
  have hjoint : Joint [] := .inl rfl
  refine ⟨_, left, hts, hrest, hleft, .of_path hreread hjoint ?_ id⟩
  rintro _ ⟨⟩
  exact ht

theorem readType_yields (ih : RereadAll fuel) (h : Regular ts)
    (hfuel : 3 * ts.length + 2 ≤ fuel + 1) :
    Yields (readType (fuel + 1)) ts (TypeRead ts) := by
  unfold readType
  refine .ok_bind (peek?_apply ts) ?_
  cases ts with
  | nil => exact .throw
  | cons t ts =>
      dsimp only [List.head?_cons]
      split
      · rename_i hmark
        obtain ⟨l, rfl⟩ := exists_mark hmark
        exact .ok_bind (skip_apply _) (referenced_yields ih h (by grind))
      split
      · rename_i hmark
        obtain ⟨l, rfl⟩ := exists_mark hmark
        exact .ok_bind (skip_apply _) (pointed_yields ih h (by grind))
      split
      · rename_i hmark
        obtain ⟨l, rfl⟩ := exists_mark hmark
        obtain ⟨k, inner, c, us, ho, hc, rfl, hinner, hus, -⟩ := h.exists_group rfl
        obtain rfl : .round = k := Option.some.inj ho
        refine .ok_bind (group_balanced rfl hc hinner.balanced) ?_
        rw [Balanced.inside_group]
        exact parenthesized_yields ih h hc hinner hus.balanced (by grind)
      split
      · rename_i hmark
        obtain ⟨l, rfl⟩ := exists_mark hmark
        obtain ⟨k, inner, c, us, ho, hc, rfl, hinner, hus, -⟩ := h.exists_group rfl
        refine .ok_bind (group_balanced ho hc hinner.balanced) ?_
        rw [Balanced.inside_group]
        refine (Yields.within (bracketed_yields ih hinner (by grind) ho hc)).mono ?_
        rintro r _ ⟨rfl, _, hreread⟩
        exact ⟨_, 0, by simp, hus.balanced, .inl rfl, hreread⟩
      split
      · rename_i hmark
        exact kept_yields h (.inl hmark)
      split
      · rename_i hmark
        exact single_yields h (Bool.or_eq_true_iff.mp hmark)
      split
      · rename_i hstart
        rw [Bool.and_eq_true, beq_iff_eq, List.contains_iff_mem] at hstart
        exact kept_yields h (.inr hstart)
      rename_i hsingle hstart
      split
      · rename_i hmark
        obtain ⟨l, rfl⟩ := exists_mark hmark
        refine .ok_bind (skip_apply _) ?_
        exact (ih.readPath (h.tail rfl) (by grind)).mono fun _ _ hread => hread.rooted h
      split
      · rename_i hkind
        have hname : t.text ∉ "_" :: verbatimStarts := by
          simp only [Token.isIdent, hkind, Bool.true_and, Bool.or_eq_true, beq_iff_eq,
            List.contains_iff_mem, not_or] at hsingle hstart
          rw [List.mem_cons, not_or]
          exact ⟨hsingle.2, hstart⟩
        exact (ih.readPath h (by omega)).mono fun _ _ hread => hread.named hname
      · exact .throw

/-! ### Paths -/

/-- A path behind one of its segments. -/
theorem goOn_yields (ih : RereadAll fuel) (hsegment : SegmentRereads run segment args)
    (h : Regular us) (hfuel : 3 * us.length ≤ fuel) :
    Yields (goOn fuel done segment args) us (PathRead done (run ++ us)) := by
  unfold goOn
  have hend : Yields (pure { segments := done ++ [segment], args } : TokenReader Reference) us
      (PathRead done (run ++ us)) :=
    .pure ⟨run, 0, rfl, h.balanced, .inl rfl, .last hsegment⟩
  refine .ok_bind (atPunct_apply "::" 0 us) (.ok_bind (get_apply us) ?_)
  split
  · rename_i hmore
    rw [Bool.and_eq_true] at hmore
    obtain ⟨l, us, rfl⟩ := exists_mark_cons hmore.1
    refine .ok_bind (skip_apply _) ?_
    refine (ih.readPath (h.tail rfl) (by grind)).mono ?_
    rintro r rest ⟨run', left, rfl, hrest, hleft, hreread⟩
    exact ⟨run ++ mark l "::" :: run', left, by simp, hrest, hleft, .cons hsegment hreread⟩
  · exact hend

/-- A path behind the name of one of its segments, and behind the mark in front of its arguments. -/
theorem withArguments_yields (ih : RereadAll fuel) {joint : List Token} (hjoint : Joint joint)
    (hless : joint ≠ [] → us[0]?.any (·.isPunct "<") = true) (hkind : t.kind = .ident)
    (ht : t.Stays) (h : Regular us) (hfuel : 3 * us.length ≤ fuel) :
    Yields (withArguments fuel done t.text) us (PathRead done (t :: (joint ++ us))) := by
  unfold withArguments
  refine .ok_bind (atPunct_apply "<" 0 us) ?_
  split
  · rename_i hmark
    obtain ⟨l, us, rfl⟩ := exists_mark_cons hmark
    refine .ok_bind (skip_apply _) ?_
    have hus : Regular us := h.tail rfl
    refine (ih.readArguments hus (by grind)).bind ?_
    rintro args rest ⟨run, rfl, hrest, hspans, hargs⟩
    have hsegment : SegmentRereads (t :: (joint ++ mark l "<" :: run)) t.text args :=
      .listed hkind ht hjoint (hspans l) hargs
    have hread : Yields (goOn fuel done t.text args) rest
        (PathRead done (t :: (joint ++ mark l "<" :: run) ++ rest)) :=
      goOn_yields ih hsegment (hus.of_suffix hrest) (by grind)
    simpa using hread
  · rename_i hmark
    obtain rfl : joint = [] := by
      by_contra hne
      exact hmark (hless hne)
    exact goOn_yields ih (.bare hkind ht) h hfuel

/-- What stands behind a segment and an exclamation mark. -/
def expanded (done : List String) (t : Token) : TokenReader Reference := do
  unless (← peek?).any (·.isOpener) do throw (.malformedMacro t.line)
  let body ← group
  return ofText (joinSegments (done ++ [t.text]) ++ "!" ++ join body)

theorem expanded_yields {l : Nat} (hkind : t.kind = .ident) (ht : t.Stays) (h : Regular us) :
    Yields (expanded done t) us (PathRead done (t :: mark l "!" :: us)) := by
  unfold expanded
  refine .ok_bind (peek?_apply us) ?_
  split
  · rename_i hopener
    cases us with
    | nil => cases hopener
    | cons o us =>
        obtain ⟨k, inner, c, vs, ho, hc, rfl, hinner, hvs, hbody⟩ :=
          h.exists_group (by simpa using hopener)
        refine .ok_bind (group_balanced ho hc hinner.balanced) (.pure ?_)
        exact ⟨t :: mark l "!" :: o :: (inner ++ [c]), 0, by simp, hvs.balanced, .inl rfl,
          .expansion hkind ht ho hc hinner.balanced hbody⟩
  · exact .throw_bind

/-- What begins with the parenthesis behind a segment. -/
def called (fuel : Nat) (done : List String) (t : Token) : TokenReader Reference := do
  let body ← group
  let text := t.text ++ join body
  if ← atPunct "->" 0 then
    skip
    let result ← readType fuel
    return ofText (joinSegments (done ++ [text ++ " -> " ++ render result]))
  else return ofText (joinSegments (done ++ [text]))

theorem called_yields {l : Nat} (ih : RereadAll fuel) (hkind : t.kind = .ident) (ht : t.Stays)
    (h : Regular (mark l "(" :: us)) (hfuel : 3 * us.length + 2 ≤ fuel) :
    Yields (called fuel done t) (mark l "(" :: us) (PathRead done (t :: mark l "(" :: us)) := by
  unfold called
  obtain ⟨k, inner, c, vs, hopens, hc, rfl, hinner, hvs, hbody⟩ := h.exists_group rfl
  obtain rfl : .round = k := Option.some.inj hopens
  refine .ok_bind (group_balanced rfl hc hinner.balanced) ?_
  refine .ok_bind (atPunct_apply "->" 0 vs) ?_
  split
  · rename_i harrow
    obtain ⟨m, vs, rfl⟩ := exists_mark_cons harrow
    refine .ok_bind (skip_apply _) ?_
    refine (ih.readType (hvs.tail rfl) (by grind)).bind ?_
    rintro result rest ⟨run, left, rfl, hrest, hleft, hreread⟩
    refine .pure ⟨_, left, ?_, hrest, hleft,
      .callTo (l := m) hkind ht rfl hc hinner.balanced hbody hreread⟩
    simp
  · exact .pure ⟨_, 0, by simp, hvs.balanced, .inl rfl,
      .call hkind ht rfl hc hinner.balanced hbody⟩

theorem readPath_yields (ih : RereadAll fuel) (h : Regular ts)
    (hfuel : 3 * ts.length + 1 ≤ fuel + 1) :
    Yields (readPath (fuel + 1) done) ts (PathRead done ts) := by
  unfold readPath
  cases ts with
  | nil =>
      intro _ _ hread
      cases hread
  | cons t ts =>
      refine .ok_bind (next_cons t ts) ?_
      split
      · rename_i hkind
        have hkind := eq_of_beq hkind
        have ht : t.Stays := h.stays t (by simp)
        have hts : Regular ts := h.tail (isInner_of_kind_ne (by simp [hkind])).isOpener
        refine .ok_bind (atPunct_apply "!" 0 ts) ?_
        split
        · rename_i hmark
          obtain ⟨l, us, rfl⟩ := exists_mark_cons hmark
          exact .ok_bind (skip_apply _) (expanded_yields hkind ht (hts.tail rfl))
        refine .ok_bind (atPunct_apply "(" 0 ts) ?_
        split
        · rename_i hmark
          obtain ⟨l, us, rfl⟩ := exists_mark_cons hmark
          exact called_yields ih hkind ht hts (by grind)
        refine .ok_bind (atPunct_apply "::" 0 ts) (.ok_bind (atPunct_apply "<" 1 ts) ?_)
        split
        · rename_i hjoint
          rw [Bool.and_eq_true] at hjoint
          obtain ⟨l, us, rfl⟩ := exists_mark_cons hjoint.1
          have hmark : Joint [mark l "::"] := .inr ⟨l, rfl⟩
          exact .ok_bind (skip_apply _) (withArguments_yields ih hmark
            (fun _ => by simpa using hjoint.2) hkind ht (hts.tail rfl) (by grind))
        · exact withArguments_yields ih (.inl rfl) (by simp) hkind ht hts (by grind)
      · exact .throw_bind

/-! ### Arguments -/

theorem runsInto_closes (h : Regular (run ++ rest)) (hrest : Closes rest) :
    ∀ t ∈ run.getLast?, t.runsInto '>' = false := by
  obtain ⟨l, more, rfl | rfl⟩ := hrest
  · exact h.runsInto_last (by simp)
  · exact h.runsInto_last (by simp)

/-- A binding: a name, a mark, and what they stand in front of. -/
theorem binding_yields (h : Regular (t :: u :: us)) (hkind : t.kind = .ident)
    (hu : u.isPunct "=" = true ∨ u.isPunct ":" = true) :
    Yields (do
      let name ← next
      let separator ← next
      let bound ← untilEnd
      pure (ofText (join (name :: separator :: bound)))) (t :: u :: us)
      (ArgumentRead (t :: u :: us)) := by
  have hword : t.kind ≠ .punct := by simp [hkind]
  have hmore : Regular (u :: us) := h.tail (isInner_of_kind_ne hword).isOpener
  obtain ⟨hinner, hless, hgreater⟩ :
      u.IsInner ∧ u.isPunct "<" = false ∧ u.isPunct ">" = false := by
    rcases hu with hmark | hmark
    · obtain ⟨l, rfl⟩ := exists_mark hmark
      exact ⟨isInner_mark rfl rfl, rfl, rfl⟩
    · obtain ⟨l, rfl⟩ := exists_mark hmark
      exact ⟨isInner_mark rfl rfl, rfl, rfl⟩
  refine .ok_bind (next_cons t _) (.ok_bind (next_cons u us) ?_)
  refine (Yields.untilEnd (hmore.tail hinner.isOpener).balanced).bind ?_
  rintro run rest ⟨left, rfl, hrest, hne, hpasses, hleft⟩
  refine .pure ⟨t :: u :: run, rfl, hrest, fun hcloses => ?_⟩
  obtain rfl : left = 0 := hleft.resolve_left hcloses.ne_nil
  have hrun : Regular (t :: u :: run ++ rest) := h
  exact ⟨(hpasses.spans.cons hinner hless hgreater).word hword,
    .binding hkind hu hpasses hne hrun.written_front (runsInto_closes hrun hcloses)⟩

/-- An argument is read back where a comma or the closing angle bracket follows. -/
theorem readArgument_yields (ih : RereadAll fuel) (h : Regular ts)
    (hfuel : 3 * ts.length + 2 ≤ fuel) :
    Yields (readArgument fuel) ts (ArgumentRead ts) := by
  unfold readArgument
  refine .ok_bind (peek?_apply ts) ?_
  cases ts with
  | nil => exact .throw
  | cons t ts =>
      dsimp only [List.head?_cons]
      split
      · rename_i hword
        have hword : t.kind = .lifetime ∨ t.kind = .literal := by simpa using hword
        have hkind : t.kind ≠ .punct := by rcases hword with hkind | hkind <;> simp [hkind]
        have hts : Regular ts := h.tail (isInner_of_kind_ne hkind).isOpener
        refine .ok_bind (skip_apply _) (.pure ⟨[t], rfl, hts.balanced, fun _ => ?_⟩)
        exact ⟨Spans.nil.word hkind, .word hword (h.stays t (by simp))⟩
      split
      · rename_i hmark
        obtain ⟨l, rfl⟩ := exists_mark hmark
        obtain ⟨k, inner, c, us, ho, hc, rfl, hinner, hus, hbody⟩ := h.exists_group rfl
        obtain rfl : .curly = k := Option.some.inj ho
        refine .ok_bind (group_balanced rfl hc hinner.balanced) (.pure ?_)
        exact ⟨mark l "\x7b" :: (inner ++ [c]), by simp [Bracket.opener], hus.balanced, fun _ =>
          ⟨.group rfl hc hinner.balanced, .braces rfl hc hinner.balanced hbody⟩⟩
      refine .ok_bind (atPunct_apply "=" 1 _) (.ok_bind (atPunct_apply ":" 1 _) ?_)
      split
      · rename_i hbinding
        simp only [Bool.and_eq_true, beq_iff_eq, Bool.or_eq_true] at hbinding
        obtain ⟨hkind, hseparator⟩ := hbinding
        cases ts with
        | nil => simp at hseparator
        | cons u us => exact binding_yields h hkind (by simpa using hseparator)
      · rename_i hbinding
        refine (ih.readType h hfuel).mono ?_
        rintro r rest ⟨run, left, hts, hrest, hleft, hreread⟩
        refine ⟨run, hts, hrest, fun hcloses => ?_⟩
        obtain rfl : left = 0 := hleft.resolve_right hcloses.ne_nil
        refine ⟨hreread.spans, .type hreread ?_ (runsInto_closes (hts ▸ h) hcloses)⟩
        rintro v w rfl hkind
        obtain ⟨rfl, rfl⟩ := List.cons.inj hts
        rw [Bool.eq_false_iff]
        exact fun hcolon => hbinding (by simp [hkind, hcolon])

/-- The arguments behind one of them. -/
theorem moreArguments_yields (ih : RereadAll fuel) (h : Regular (run ++ us))
    (hus : Balanced us) (hfuel : 3 * us.length ≤ fuel)
    (hargument : Closes us → Spans 0 run ∧ IsArgument a) :
    Yields (moreArguments fuel a) us (ArgumentsRead (run ++ us)) := by
  have hregular : Regular us := h.of_suffix hus
  unfold moreArguments
  refine .ok_bind (atPunct_apply "," 0 us) ?_
  split
  · rename_i hmark
    obtain ⟨l, us, rfl⟩ := exists_mark_cons hmark
    obtain ⟨hspans, ha⟩ := hargument ⟨l, us, .inl rfl⟩
    refine .ok_bind (skip_apply _) ?_
    refine (ih.readArguments (hregular.tail rfl) (by grind)).bind ?_
    rintro args rest ⟨run', rfl, hrest, hclosed, hargs⟩
    have hcomma : Spans 0 (run ++ [mark l ","]) :=
      hspans.append (Spans.nil.cons (isInner_mark rfl rfl) rfl rfl)
    refine .pure ⟨run ++ [mark l ","] ++ run', by simp, hrest, fun m => ?_, ?_⟩
    · exact hcomma.within_append (hclosed m)
    · simpa using ⟨ha, hargs⟩
  refine .ok_bind (atPunct_apply ">" 0 us) ?_
  split
  · rename_i hmark
    obtain ⟨l, us, rfl⟩ := exists_mark_cons hmark
    obtain ⟨hspans, ha⟩ := hargument ⟨l, us, .inr rfl⟩
    obtain ⟨fuel, rfl⟩ : ∃ n, fuel = n + 1 := ⟨fuel - 1, by grind⟩
    refine .ok_bind readArguments_close (.pure ?_)
    refine ⟨run ++ [mark l ">"], by simp, (hregular.tail rfl).balanced, fun m => ?_, ?_⟩
    · exact hspans.within_append (.nothing m l)
    · simpa using ha
  · refine .ok_bind (peek?_apply us) ?_
    split
    · exact .throw_bind
    · exact .throw_bind

theorem readArguments_yields (ih : RereadAll fuel) (h : Regular ts)
    (hfuel : 3 * ts.length + 3 ≤ fuel + 1) :
    Yields (readArguments (fuel + 1)) ts (ArgumentsRead ts) := by
  rw [readArguments_succ]
  refine .ok_bind (atPunct_apply ">" 0 ts) ?_
  split
  · rename_i hmark
    obtain ⟨l, ts, rfl⟩ := exists_mark_cons hmark
    refine .ok_bind (skip_apply _) (.pure ⟨[mark l ">"], rfl, (h.tail rfl).balanced, ?_, ?_⟩)
    · exact fun l' => .nothing l' l
    · simp
  · refine (readArgument_yields ih h (by omega)).bind ?_
    rintro a us ⟨run, rfl, hus, hargument⟩
    exact moreArguments_yields ih h hus (by grind) hargument

theorem rereadAll (fuel : Nat) : RereadAll fuel := by
  induction fuel with
  | zero => exact rereadAll_zero
  | succ fuel ih =>
      exact ⟨readType_yields ih, readElements_yields ih, readPath_yields ih,
        readArguments_yields ih⟩

/-! ### Texts -/

/-- The tokens of the text are tidy, if it has any. -/
def TidyText (text : String) : Prop := ∀ ts ∈ (tokenize text).toOption, Tidy ts

instance (text : String) : Decidable (TidyText text) :=
  inferInstanceAs (Decidable (∀ ts ∈ (tokenize text).toOption, Tidy ts))

/-- **A type that was read of a tidy text is read of its own text again.** -/
theorem parse_render_of_parse {text : String} (htidy : TidyText text) (h : parse text = .ok r) :
    parse r.render = .ok r := by
  unfold parse at h
  split at h
  · cases h
  rename_i ts htokens
  have hregular : Regular ts :=
    ⟨balanced_of_tokenize htokens, stays_of_lex (lex_of_tokenize htokens).1,
      allFit_of_tokenize htokens, htidy ts (by rw [htokens]; rfl)⟩
  have hreader : reader ts = .ok r [] := by
    unfold ofTokens at h
    cases hread : reader ts with
    | error fault rest => simp [hread] at h
    | ok s rest =>
        cases rest with
        | nil => simpa [hread] using h
        | cons t rest => simp [hread] at h
  obtain ⟨run, left, -, -, -, hreread⟩ := (rereadAll _).readType hregular (by omega) r [] hreader
  obtain ⟨us, line', hlexes, hrestores⟩ := hreread.text 1 [] clear_nil
  exact hrestores.parse_eq hlexes.lexFrom_eq

/-- A text with an array length, a call, an expansion and a binding, and with marks that are not
written again. -/
def assortedText : String :=
  "(::std::Map::<'a, Item = impl Into<u8>, \x7bN + 1\x7d, Fn(&A) -> [m!(x < y); 2 * N],>, " ++
    "&mut (dyn Any + Send))"

/-- What the text is parsed as: a pair of a path and a reference. -/
def assorted : Reference :=
  { modifier := .tuple
    args :=
      [{ segments := ["std", "Map"]
         args := [ofText "'a", ofText "Item = impl Into<u8>", ofText "\x7bN + 1\x7d",
           ofText "Fn(&A) -> [m!(x<y); 2*N]"] },
       { modifier := .exclusive, args := [ofText "dyn Any + Send"] }] }

theorem parse_render_assorted :
    TidyText assortedText ∧ parse assortedText = .ok assorted ∧
      parse assorted.render = .ok assorted :=
  have htidy : TidyText assortedText := by decide +kernel
  have hparse : parse assortedText = .ok assorted := by decide +kernel
  ⟨htidy, hparse, parse_render_of_parse htidy hparse⟩

/-- A bound that begins with a mark is glued to the colon in front of it, and then the text of the
type is no type: the two are lexed as another mark and a colon. -/
theorem parse_render_gluedBound :
    parse "Set<Item: ::std::fmt::Debug>" =
        .ok { segments := ["Set"], args := [ofText "Item:::std::fmt::Debug"] } ∧
      parse (render { segments := ["Set"], args := [ofText "Item:::std::fmt::Debug"] }) =
        .error (.type (.betweenArguments "::" 1)) := by
  decide +kernel

end Reference

end ConversionClosure
