/-
Readers that settle.

A reader has fuel, and it may look at tokens behind those that it is to take.  It settles when
neither matters: with enough fuel and whatever follows, it comes to one end, and what it leaves is
in its region still.  Fuel then only tells how deep a reader may go, and a fault is one of the
tokens.
-/
import ConversionClosure.Proofs.Regions

namespace ConversionClosure

open Token

variable {p : Region} {angles bound : Nat} {ts us : List Token} {t : Token}

/-- The fault is one of the tokens, and not of the reader. -/
def TypeFault.IsSyntactic (fault : TypeFault) : Prop :=
  fault ≠ .unmatchedBracket ∧ fault ≠ .outOfFuel

instance (fault : TypeFault) : Decidable fault.IsSyntactic :=
  inferInstanceAs (Decidable (_ ∧ _))

namespace TokenReader

variable {α β : Type} {x : Nat → TokenReader α} {f : Nat → α → TokenReader β}
  {post post' : α → List Token → Prop} {last : β → List Token → Prop}

/-- With fuel from `bound` on, and whatever stands behind the tokens of the region, the reader comes
to the same end.  What it reads and leaves is as `post` says. -/
inductive Settles (p : Region) (x : Nat → TokenReader α) (bound : Nat) (ts : List Token)
    (post : α → List Token → Prop) : Prop
  | ok {a : α} {us : List Token} (hlength : us.length ≤ ts.length) (hpost : post a us)
      (heq : ∀ fuel rest, bound ≤ fuel → x fuel (ts ++ p.beyond rest) = .ok a (us ++ p.beyond rest))
  | fault {fault : TypeFault} {us : List Token} (hlength : us.length ≤ ts.length)
      (hfault : fault.IsSyntactic) (hleaves : p.Leaves us)
      (heq : ∀ fuel rest, bound ≤ fuel →
        x fuel (ts ++ p.beyond rest) = .error fault (us ++ p.beyond rest))

namespace Settles

theorem pure {a : α} (h : post a ts) : Settles p (fun _ => Pure.pure a) bound ts post :=
  .ok (Nat.le_refl _) h fun _ _ _ => rfl

theorem throw {fault : TypeFault} (hfault : fault.IsSyntactic) (h : p.Leaves ts) :
    Settles p (fun _ => (MonadExcept.throw fault : TokenReader α)) bound ts post :=
  .fault (Nat.le_refl _) hfault h fun _ _ _ => rfl

theorem bind (hx : Settles p x bound ts post)
    (hf : ∀ a us, us.length ≤ ts.length → post a us → Settles p (fun n => f n a) bound us last) :
    Settles p (fun n => x n >>= f n) bound ts last := by
  cases hx with
  | fault hlength hfault hleaves heq =>
      refine .fault hlength hfault hleaves fun fuel rest hfuel => ?_
      rw [bind_apply, heq fuel rest hfuel]
  | @ok a us hlength hpost heq =>
      cases hf a us hlength hpost with
      | ok hlength' hlast heq' =>
          refine .ok (Nat.le_trans hlength' hlength) hlast fun fuel rest hfuel => ?_
          rw [bind_apply, heq fuel rest hfuel]
          exact heq' fuel rest hfuel
      | fault hlength' hfault hleaves heq' =>
          refine .fault (Nat.le_trans hlength' hlength) hfault hleaves fun fuel rest hfuel => ?_
          rw [bind_apply, heq fuel rest hfuel]
          exact heq' fuel rest hfuel

theorem throw_bind {fault : TypeFault} (hfault : fault.IsSyntactic) (h : p.Leaves ts) :
    Settles p (fun n => (MonadExcept.throw fault : TokenReader α) >>= f n) bound ts last :=
  (throw hfault h : Settles p _ bound ts fun _ _ => False).bind fun _ _ _ h => h.elim

theorem congr {y : Nat → TokenReader α} (hy : Settles p y bound ts post)
    (h : ∀ fuel rest, x fuel (ts ++ p.beyond rest) = y fuel (ts ++ p.beyond rest)) :
    Settles p x bound ts post := by
  cases hy with
  | ok hlength hpost heq =>
      exact .ok hlength hpost fun fuel rest hfuel => (h fuel rest).trans (heq fuel rest hfuel)
  | fault hlength hfault hleaves heq =>
      exact .fault hlength hfault hleaves fun fuel rest hfuel =>
        (h fuel rest).trans (heq fuel rest hfuel)

theorem mono {bound' : Nat} (h : Settles p x bound ts post) (hbound : bound ≤ bound')
    (hpost : ∀ a us, us.length ≤ ts.length → post a us → post' a us) :
    Settles p x bound' ts post' := by
  cases h with
  | ok hlength hp heq =>
      exact .ok hlength (hpost _ _ hlength hp) fun fuel rest hfuel =>
        heq fuel rest (Nat.le_trans hbound hfuel)
  | fault hlength hfault hleaves heq =>
      exact .fault hlength hfault hleaves fun fuel rest hfuel =>
        heq fuel rest (Nat.le_trans hbound hfuel)

theorem fuel {bound' : Nat} (h : Settles p x bound ts post) (hbound : bound ≤ bound') :
    Settles p x bound' ts post := h.mono hbound fun _ _ _ hpost => hpost

/-- Any fuel from the bound on will do. -/
theorem with_fuel {n bound' : Nat} (h : Settles p x bound ts post) (hn : bound ≤ n) :
    Settles p (fun _ => x n) bound' ts post := by
  cases h with
  | ok hlength hpost heq => exact .ok hlength hpost fun _ rest _ => heq n rest hn
  | fault hlength hfault hleaves heq =>
      exact .fault hlength hfault hleaves fun _ rest _ => heq n rest hn

/-- A reader that calls itself has one unit of fuel less for that. -/
theorem succ (h : Settles p (fun n => x (n + 1)) bound ts post) :
    Settles p x (bound + 1) ts post := by
  have hfuel : ∀ fuel, bound + 1 ≤ fuel → ∃ n, fuel = n + 1 ∧ bound ≤ n :=
    fun fuel hle => ⟨fuel - 1, by omega, by omega⟩
  cases h with
  | ok hlength hpost heq =>
      refine .ok hlength hpost fun fuel rest hle => ?_
      obtain ⟨n, rfl, hn⟩ := hfuel fuel hle
      exact heq n rest hn
  | fault hlength hfault hleaves heq =>
      refine .fault hlength hfault hleaves fun fuel rest hle => ?_
      obtain ⟨n, rfl, hn⟩ := hfuel fuel hle
      exact heq n rest hn

/-! ### Single steps -/

/-- Behind a reader that comes to one end for sure. -/
theorem ok_bind {a : α} (hlength : us.length ≤ ts.length)
    (hx : ∀ fuel rest, x fuel (ts ++ p.beyond rest) = .ok a (us ++ p.beyond rest))
    (h : Settles p (fun n => f n a) bound us last) :
    Settles p (fun n => x n >>= f n) bound ts last := by
  have hend : Settles p x bound ts fun b vs => a = b ∧ us = vs :=
    .ok hlength ⟨rfl, rfl⟩ fun fuel rest _ => hx fuel rest
  refine hend.bind ?_
  rintro _ _ - ⟨rfl, rfl⟩
  exact h

theorem peek?_bind {f : Nat → Option Token → TokenReader β}
    (h : Settles p (fun n => f n (p.next? ts)) bound ts last) :
    Settles p (fun n => TokenReader.peek? >>= f n) bound ts last :=
  .ok_bind (Nat.le_refl _) (fun _ rest => by rw [peek?_apply, p.head?_append_beyond]) h

theorem atPunct_bind {f : Nat → Bool → TokenReader β} {text : String}
    (h : Settles p (fun n => f n ((p.next? ts).any (·.isPunct text))) bound ts last) :
    Settles p (fun n => TokenReader.atPunct text 0 >>= f n) bound ts last :=
  .ok_bind (Nat.le_refl _) (fun _ rest => by
    rw [atPunct_apply, ← List.head?_eq_getElem?, p.head?_append_beyond]) h

theorem atPunct_one_bind {f : Nat → Bool → TokenReader β} {text : String}
    (h : Settles p (fun n => f n ((p.next? ts).any (·.isPunct text))) bound (t :: ts) last) :
    Settles p (fun n => TokenReader.atPunct text 1 >>= f n) bound (t :: ts) last :=
  .ok_bind (Nat.le_refl _) (fun _ rest => by rw [atPunct_apply, p.getElem?_append_beyond]) h

theorem atIdent_bind {f : Nat → Bool → TokenReader β} {text : String}
    (h : Settles p (fun n => f n ((p.next? ts).any (·.isIdent text))) bound ts last) :
    Settles p (fun n => TokenReader.atIdent text >>= f n) bound ts last :=
  .ok_bind (Nat.le_refl _) (fun _ rest => by rw [atIdent_apply, p.head?_append_beyond]) h

theorem skip_bind {f : Nat → Unit → TokenReader β}
    (h : Settles p (fun n => f n ()) bound ts last) :
    Settles p (fun n => TokenReader.skip >>= f n) bound (t :: ts) last :=
  .ok_bind (Nat.le_succ _) (fun _ _ => rfl) h

theorem next_bind {f : Nat → Token → TokenReader β}
    (h : Settles p (fun n => f n t) bound ts last) :
    Settles p (fun n => TokenReader.next >>= f n) bound (t :: ts) last :=
  .ok_bind (Nat.le_succ _) (fun _ _ => rfl) h

/-- A branch on the next token: where it is the mark, there is such a token. -/
theorem ifPunct {y : Nat → TokenReader α} {text : String} (htext : text ≠ "\x7b")
    (hx : ∀ l us, ts = mark l text :: us → Settles p x bound (mark l text :: us) post)
    (hy : Settles p y bound ts post) :
    Settles p (fun n => do if ← TokenReader.atPunct text 0 then x n else y n) bound ts post := by
  refine .atPunct_bind ?_
  cases hnext : (p.next? ts).any (·.isPunct text) with
  | false => exact hy
  | true =>
      obtain ⟨l, us, rfl⟩ := Region.exists_cons hnext htext
      exact hx l us rfl

/-- A branch on the next token: where it is the name, there is such a token. -/
theorem ifIdent {y : Nat → TokenReader α} {text : String}
    (hx : ∀ t us, ts = t :: us → t.kind ≠ .punct → Settles p x bound (t :: us) post)
    (hy : Settles p y bound ts post) :
    Settles p (fun n => do if ← TokenReader.atIdent text then x n else y n) bound ts post := by
  refine .atIdent_bind ?_
  cases hnext : (p.next? ts).any (·.isIdent text) with
  | false => exact hy
  | true =>
      obtain ⟨t, us, rfl, ht⟩ := Region.exists_word hnext
      exact hx t us rfl ht

/-- A token that may be taken, if there is one. -/
theorem next_starts (h : p.Holds angles ts) (hstarts : p.Starts ts) :
    Settles p (fun _ => TokenReader.next) bound ts fun t us => ts = t :: us ∧ p.Leaves us := by
  cases ts with
  | nil =>
      cases p with
      | whole => exact .fault (Nat.le_refl _) (by decide) h fun _ _ _ => rfl
      | header line =>
          obtain ⟨t, us, hcons, -⟩ := hstarts
          cases hcons
  | cons t ts => exact .ok (Nat.le_succ _) ⟨rfl, h.leaves_of_starts hstarts⟩ fun _ _ _ => rfl

/-- Among all tokens nothing else follows. -/
theorem of_ok {y : TokenReader α} {a : α} (heq : y ts = .ok a us) (hlength : us.length ≤ ts.length)
    (hpost : post a us) : Settles .whole (fun _ => y) bound ts post :=
  .ok hlength hpost fun _ _ _ => by
    rw [Region.beyond, List.append_nil, List.append_nil, heq]

theorem of_error {y : TokenReader α} {fault : TypeFault} (heq : y ts = .error fault us)
    (hlength : us.length ≤ ts.length) (hfault : fault.IsSyntactic) (hus : Matched us) :
    Settles .whole (fun _ => y) bound ts post :=
  .fault hlength hfault hus fun _ _ _ => by
    rw [Region.beyond, List.append_nil, List.append_nil, heq]

theorem atEnd_bind {f : Nat → Bool → TokenReader β}
    (h : Settles .whole (fun n => f n ts.isEmpty) bound ts last) :
    Settles .whole (fun n => TokenReader.atEnd >>= f n) bound ts last :=
  .ok_bind (Nat.le_refl _)
    (fun _ _ => by rw [Region.beyond, List.append_nil, atEnd_apply]) h

theorem get_bind {f : Nat → List Token → TokenReader β}
    (h : Settles .whole (fun n => f n ts) bound ts last) :
    Settles .whole (fun n => MonadState.get >>= f n) bound ts last :=
  .ok_bind (Nat.le_refl _) (fun _ _ => by rw [Region.beyond, List.append_nil, get_apply]) h

theorem atPunct_any_bind {f : Nat → Bool → TokenReader β} {text : String} {offset : Nat}
    (h : Settles .whole (fun n => f n (ts[offset]?.any (·.isPunct text))) bound ts last) :
    Settles .whole (fun n => TokenReader.atPunct text offset >>= f n) bound ts last :=
  .ok_bind (Nat.le_refl _) (fun _ _ => by
    rw [Region.beyond, List.append_nil, atPunct_apply]) h

/-- What is looked at does not matter when nothing comes of it. -/
theorem ignore {y : TokenReader β} {g : Nat → TokenReader α}
    (hy : ∀ us, ∃ b, y us = .ok b us) (h : Settles p g bound ts post) :
    Settles p (fun n => y >>= fun _ => g n) bound ts post := by
  refine h.congr fun fuel rest => ?_
  obtain ⟨b, hb⟩ := hy (ts ++ p.beyond rest)
  rw [bind_apply, hb]

/-- A group is taken whole. -/
theorem group (h : p.Holds angles (t :: ts)) (ht : t.isOpener = true) :
    Settles p (fun _ => TokenReader.group) bound (t :: ts) fun run us =>
      p.Holds angles us ∧ us.length < ts.length ∧
        Balanced (Run.inside run) ∧ (Run.inside run).length < ts.length := by
  obtain ⟨k, inner, c, us, ho, hc, hinner, rfl, hus⟩ := h.exists_group ht
  have heq : ∀ fuel rest, bound ≤ fuel →
      TokenReader.group (t :: (inner ++ c :: us) ++ p.beyond rest) =
        .ok (t :: (inner ++ [c])) (us ++ p.beyond rest) := by
    intro _ rest _
    rw [List.cons_append, List.append_assoc, List.cons_append, group_balanced ho hc hinner]
  have hrest : us.length < (inner ++ c :: us).length := by
    rw [List.length_append, List.length_cons]
    omega
  refine .ok (Nat.le_succ_of_le (Nat.le_of_lt hrest)) ⟨hus, hrest, ?_⟩ heq
  rw [Balanced.inside_group]
  exact ⟨hinner, by simp⟩

/-- What stands behind a group does not matter to what is read inside. -/
theorem within {inner : List Token} (hx : Settles .whole x bound inner post) (h : p.Leaves ts) :
    Settles p (fun n => TokenReader.within inner (x n)) bound ts
      fun a us => ts = us ∧ ∃ vs, post a vs := by
  have hinner : inner ++ Region.whole.beyond [] = inner := List.append_nil inner
  cases hx with
  | ok hlength hpost heq =>
      refine .ok (Nat.le_refl _) ⟨rfl, _, hpost⟩ fun fuel rest hfuel => ?_
      have hread := heq fuel [] hfuel
      rw [hinner] at hread
      rw [TokenReader.within, hread]
  | fault hlength hfault hleaves heq =>
      refine .fault (Nat.le_refl _) hfault h fun fuel rest hfuel => ?_
      have hread := heq fuel [] hfuel
      rw [hinner] at hread
      rw [TokenReader.within, hread]

/-- A mark that has to come next. -/
theorem expect (text : String) (h : Matched ts) :
    Settles .whole (fun _ => TokenReader.expect text) bound ts fun _ us =>
      Matched us ∧ us.length < ts.length := by
  cases ts with
  | nil => exact .fault (Nat.le_refl _) (by decide) h fun _ _ _ => rfl
  | cons t ts =>
      unfold TokenReader.expect
      refine .next_bind ?_
      split
      · exact .pure ⟨h.tail, Nat.lt_succ_self _⟩
      · exact .throw (by simp [TypeFault.IsSyntactic]) h.tail

/-- A run up to the end of a type. -/
theorem untilEnd (h : p.Holds angles ts) :
    Settles p (fun _ => TokenReader.untilEnd) bound ts fun _ us =>
      p.Behind angles ts us := by
  obtain ⟨run, us, rfl, hus, hrun⟩ := Region.exists_untilEnd h
  have hread : ∀ rest, TokenReader.untilEnd (run ++ us ++ p.beyond rest) =
      if run.isEmpty then .error .noType (run ++ us ++ p.beyond rest)
      else .ok run (us ++ p.beyond rest) := by
    intro rest
    rw [untilEnd_apply, hrun]
  cases run with
  | nil => exact .fault (Nat.le_refl _) (by decide) h.leaves fun _ rest _ => hread rest
  | cons t run =>
      have hlength : us.length < (t :: run ++ us).length := by
        rw [List.length_append, List.length_cons]
        omega
      exact .ok (Nat.le_of_lt hlength) ⟨hus, hlength⟩ fun _ rest _ => hread rest

end Settles

end TokenReader

namespace Reference

open TokenReader

theorem readLifetime_settles (h : p.Holds angles ts) :
    Settles p (fun _ => readLifetime) bound ts fun _ us => p.Holds angles us := by
  unfold readLifetime
  refine .peek?_bind ?_
  cases ts with
  | nil =>
    cases p with
    | whole => exact .pure h
    | header line => exact .pure h
  | cons t ts =>
      rw [Region.next?_cons]
      dsimp only
      split
      · rename_i hkind
        refine .skip_bind ?_
        exact .pure (h.word (by simp [eq_of_beq hkind]))
      · exact .pure h

/-! ### Readers of types -/

/-- With fuel for the tokens, every reader settles on fewer than `size` of them.  A reader may call
two others before it takes a token, so that a token is worth three units of fuel. -/
structure SettleBelow (size : Nat) : Prop where
  readType : ∀ {p angles ts}, ts.length < size → p.Holds angles ts →
    Settles p readType (3 * ts.length + 2) ts fun _ us => p.Behind angles ts us
  readElements : ∀ {ts}, ts.length < size → Matched ts →
    Settles .whole readElements (3 * ts.length + 3) ts fun _ _ => True
  readPath : ∀ {p angles ts segments}, ts.length < size → p.Holds angles ts → p.Starts ts →
    Settles p (readPath · segments) (3 * ts.length + 1) ts fun _ us => p.Behind angles ts us
  readArguments : ∀ {p angles ts}, ts.length < size → p.Holds (angles + 1) ts →
    Settles p readArguments (3 * ts.length + 3) ts fun _ us => p.Behind angles ts us

variable {segments : List String} {segment : String} {args : List Reference}

/-- A path behind one of its segments and the arguments of that, which may be its last one. -/
def goOn (fuel : Nat) (segments : List String) (segment : String) (args : List Reference) :
    TokenReader Reference := do
  if (← atPunct "::" 0) && (← get)[1]?.any (·.kind == .ident) then
    skip
    readPath fuel (segments ++ [segmentText segment args])
  else return { segments := segments ++ [segment], args }

theorem goOn_settles {size : Nat} (ih : SettleBelow size) (h : p.Holds angles ts)
    (hsize : ts.length < size) :
    Settles p (goOn · segments segment args) (3 * ts.length + 1) ts fun _ us =>
      p.Holds angles us ∧ us.length ≤ ts.length := by
  unfold goOn
  refine .atPunct_bind ?_
  cases hcolons : (p.next? ts).any (·.isPunct "::") with
  | false =>
      simp only [Bool.false_and]
      exact .ignore (fun us => ⟨us, rfl⟩) (.pure ⟨h, Nat.le_refl _⟩)
  | true =>
      obtain ⟨l, ts, rfl⟩ := Region.exists_cons hcolons (by decide)
      -- The reader looks at all that is left, and only its second token matters.
      have hsegment : ∀ rest, (mark l "::" :: ts ++ p.beyond rest)[1]? = p.next? ts :=
        p.getElem?_append_beyond _ _
      have hrest : Settles p (fun n => if (p.next? ts).any (·.kind == .ident) then do
          skip
          readPath n (segments ++ [segmentText segment args])
        else pure { segments := segments ++ [segment], args })
          (3 * (mark l "::" :: ts).length + 1) (mark l "::" :: ts) fun _ us =>
            p.Holds angles us ∧ us.length ≤ (mark l "::" :: ts).length := by
        split
        · refine .skip_bind ?_
          have hread : Settles p (readPath · (segments ++ [segmentText segment args])) _ ts _ :=
            ih.readPath (Nat.lt_of_succ_lt hsize) (h.tail rfl rfl rfl) (h.starts (.inr rfl))
          refine hread.mono (by rw [List.length_cons]; omega) fun _ us hlength hus => ⟨hus.1, ?_⟩
          exact Nat.le_succ_of_le hlength
        · exact .pure ⟨h, Nat.le_refl _⟩
      refine hrest.congr fun fuel rest => ?_
      simp only [bind_apply, get_apply, hsegment, Bool.true_and]

/-- A path behind one of its segments. -/
def withArguments (fuel : Nat) (segments : List String) (segment : String) :
    TokenReader Reference := do
  if ← atPunct "<" 0 then
    skip
    goOn fuel segments segment (← readArguments fuel)
  else goOn fuel segments segment []

theorem withArguments_settles {size : Nat} (ih : SettleBelow size) (h : p.Holds angles ts)
    (hsize : ts.length < size) :
    Settles p (withArguments · segments segment) (3 * ts.length + 1) ts fun _ us =>
      p.Holds angles us ∧ us.length ≤ ts.length := by
  unfold withArguments
  refine .ifPunct (by decide) ?_ (goOn_settles ih h hsize)
  rintro l us rfl
  rw [List.length_cons] at hsize ⊢
  refine .skip_bind ?_
  have hread := ih.readArguments (Nat.lt_of_succ_lt hsize) h.less
  refine (hread.fuel (by omega)).bind fun args vs _ hvs => ?_
  have hless : vs.length < us.length := hvs.2
  refine (goOn_settles ih hvs.1 (by omega)).mono (by omega) fun _ ws _ hws => ⟨hws.1, ?_⟩
  exact Nat.le_trans hws.2 (Nat.le_succ_of_le (Nat.le_of_lt hless))

theorem readPath_settles (ih : SettleBelow ts.length) (h : p.Holds angles ts)
    (hstarts : p.Starts ts) :
    Settles p (readPath · segments) (3 * ts.length + 1) ts fun _ us => p.Behind angles ts us := by
  refine Settles.succ ?_
  simp only [readPath]
  refine (Settles.next_starts h hstarts).bind ?_
  rintro t ts - ⟨rfl, hleaves⟩
  split
  · rename_i hkind
    have hts : p.Holds angles ts := h.word (by simp [eq_of_beq hkind])
    have harguments : ∀ us, us.length ≤ ts.length → p.Holds angles us →
        Settles p (withArguments · segments t.text) (3 * (t :: ts).length) us
          fun _ us => p.Behind angles (t :: ts) us := by
      intro us hlength hus
      refine (withArguments_settles ih hus (Nat.lt_succ_of_le hlength)).mono ?_ ?_
      · rw [List.length_cons]
        omega
      · exact fun _ vs _ hvs => ⟨hvs.1, Nat.lt_succ_of_le (Nat.le_trans hvs.2 hlength)⟩
    refine .ifPunct (by decide) ?_ (.ifPunct (by decide) ?_ ?_)
    · rintro l us rfl
      refine .skip_bind ?_
      have hus : p.Holds angles us := hts.tail rfl rfl rfl
      refine .peek?_bind ?_
      split
      · rename_i hopener
        obtain ⟨o, us, rfl, ho⟩ := hts.exists_macro hopener
        refine (Settles.group hus ho).bind fun body vs _ hvs => .pure ?_
        exact ⟨hvs.1, by simp only [List.length_cons]; omega⟩
      · exact .throw_bind (by simp [TypeFault.IsSyntactic]) hus.leaves
    · rintro l us rfl
      refine (Settles.group hts rfl).bind fun body vs _ hvs => ?_
      have hlength := hvs.2.1
      refine .ifPunct (by decide) ?_ (.pure ⟨hvs.1, by simp only [List.length_cons]; omega⟩)
      rintro l' vs rfl
      refine .skip_bind ?_
      simp only [List.length_cons] at hlength ih ⊢
      have hread := ih.readType (by omega) (hvs.1.tail rfl rfl rfl)
      refine (hread.fuel (by omega)).bind fun result ws _ hws => .pure ⟨hws.1, ?_⟩
      have hless := hws.2
      simp only [List.length_cons]
      omega
    · refine .atPunct_bind ?_
      cases hcolons : (p.next? ts).any (·.isPunct "::") with
      | false =>
          simp only [Bool.false_and]
          exact .ignore (fun us => ⟨_, rfl⟩)
            ((harguments ts (Nat.le_refl _) hts).congr fun _ _ => rfl)
      | true =>
          obtain ⟨l, us, rfl⟩ := Region.exists_cons hcolons (by decide)
          refine .atPunct_one_bind ?_
          split
          · refine .skip_bind ?_
            exact (harguments us (Nat.le_succ _) (hts.tail rfl rfl rfl)).congr fun _ _ => rfl
          · exact (harguments _ (Nat.le_refl _) hts).congr fun _ _ => rfl
  · exact .throw_bind (by simp [TypeFault.IsSyntactic]) hleaves

theorem verbatim_settles (h : p.Holds angles ts) :
    Settles p (fun _ => do return ofText (join (← untilEnd))) bound ts
      fun _ us => p.Behind angles ts us :=
  (Settles.untilEnd h).bind fun _ _ _ hus => .pure hus

/-- What stands in square brackets: an element, or an element and a length. -/
def bracketed (fuel : Nat) : TokenReader Reference := do
  let element ← readType fuel
  if ← atEnd then return { modifier := .slice, args := [element] }
  expect ";"
  let length := join (← get)
  if length = "" then throw .noArrayLength
  return { modifier := .array, args := [element], length }

theorem bracketed_settles {size : Nat} (ih : SettleBelow size) (h : Matched ts)
    (hsize : ts.length < size) :
    Settles .whole bracketed (3 * ts.length + 2) ts fun _ _ => True := by
  unfold bracketed
  have hwhole : Region.whole.Holds 0 ts := h
  refine (ih.readType hsize hwhole).bind fun element us _ hus => .atEnd_bind ?_
  split
  · exact .pure trivial
  refine (Settles.expect ";" hus.1).bind fun _ vs _ hvs => .get_bind ?_
  dsimp only
  split
  · exact .throw_bind (by decide) hvs.1
  · exact .pure trivial

theorem readType_settles (ih : SettleBelow ts.length) (h : p.Holds angles ts) :
    Settles p readType (3 * ts.length + 2) ts fun _ us => p.Behind angles ts us := by
  refine Settles.succ ?_
  simp only [readType]
  refine .peek?_bind ?_
  cases ts with
  | nil =>
      cases p with
      | whole => exact .throw (by decide) h
      | header line => exact .throw (by simp [TypeFault.IsSyntactic]) h.leaves
  | cons t ts =>
      have hinner : ∀ (f : Reference → Reference) us, us.length ≤ ts.length → p.Holds angles us →
          Settles p (fun n => do return f (← readType n)) (3 * (t :: ts).length + 1) us
            fun _ vs => p.Behind angles (t :: ts) vs := by
        intro f us hlength hus
        have hread := ih.readType (Nat.lt_succ_of_le hlength) hus
        have hfuel : 3 * us.length + 2 ≤ 3 * (t :: ts).length + 1 := by
          rw [List.length_cons]
          omega
        refine (hread.fuel hfuel).bind fun inner vs _ hvs => .pure ⟨hvs.1, ?_⟩
        exact Nat.lt_succ_of_le (Nat.le_of_lt (Nat.lt_of_lt_of_le hvs.2 hlength))
      rw [Region.next?_cons]
      dsimp only
      split
      · rename_i hmark
        obtain ⟨l, rfl⟩ := exists_mark hmark
        refine .skip_bind ?_
        refine (readLifetime_settles (h.tail rfl rfl rfl)).bind fun lifetime us hlength hus => ?_
        refine .atIdent_bind ?_
        cases hexclusive : (p.next? us).any (·.isIdent "mut") with
        | false => exact hinner _ us hlength hus
        | true =>
            obtain ⟨u, us, rfl, hu⟩ := Region.exists_word hexclusive
            refine .skip_bind ?_
            exact hinner _ us (Nat.le_of_lt hlength) (hus.word hu)
      split
      · rename_i hmark
        obtain ⟨l, rfl⟩ := exists_mark hmark
        refine .skip_bind ?_
        have hts : p.Holds angles ts := h.tail rfl rfl rfl
        refine (Settles.next_starts hts (h.starts (.inl rfl))).bind ?_
        rintro qualifier us - ⟨rfl, hleaves⟩
        split
        · rename_i hword
          exact hinner _ us (Nat.le_succ _) (hts.word (isWord_of_isIdent hword))
        split
        · rename_i hword
          exact hinner _ us (Nat.le_succ _) (hts.word (isWord_of_isIdent hword))
        · exact .throw (by simp [TypeFault.IsSyntactic]) hleaves
      split
      · rename_i hmark
        obtain ⟨l, rfl⟩ := exists_mark hmark
        refine (Settles.group h rfl).bind ?_
        rintro run us - ⟨hus, hlength, hrun, hless⟩
        have hread := ih.readElements (Nat.lt_succ_of_lt hless) hrun.matched
        have hfuel : 3 * (Run.inside run).length + 3 ≤ 3 * (mark l "(" :: ts).length + 1 := by
          rw [List.length_cons]
          omega
        refine (Settles.within (hread.fuel hfuel) hus.leaves).bind ?_
        rintro ⟨elements, trailing⟩ us - ⟨rfl, -⟩
        dsimp only
        split
        · exact .pure ⟨hus, Nat.lt_succ_of_lt hlength⟩
        · exact .pure ⟨hus, Nat.lt_succ_of_lt hlength⟩
      split
      · rename_i hmark
        obtain ⟨l, rfl⟩ := exists_mark hmark
        refine (Settles.group h rfl).bind ?_
        rintro run us - ⟨hus, hlength, hrun, hless⟩
        have hread := bracketed_settles ih hrun.matched (Nat.lt_succ_of_lt hless)
        have hfuel : 3 * (Run.inside run).length + 2 ≤ 3 * (mark l "[" :: ts).length + 1 := by
          rw [List.length_cons]
          omega
        refine (Settles.within (hread.fuel hfuel) hus.leaves).mono (Nat.le_refl _) ?_
        rintro _ us - ⟨rfl, -⟩
        exact ⟨hus, Nat.lt_succ_of_lt hlength⟩
      split
      · exact verbatim_settles h
      split
      · rename_i hmark
        refine .skip_bind (.pure ⟨?_, Nat.lt_succ_self _⟩)
        rcases Bool.or_eq_true_iff.mp hmark with hpunct | hword
        · obtain ⟨l, rfl⟩ := exists_mark hpunct
          exact h.tail rfl rfl rfl
        · exact h.word (isWord_of_isIdent hword)
      split
      · exact verbatim_settles h
      split
      · rename_i hmark
        obtain ⟨l, rfl⟩ := exists_mark hmark
        refine .skip_bind ?_
        have hread : Settles p (readPath · []) _ ts _ :=
          ih.readPath (Nat.lt_succ_self _) (h.tail rfl rfl rfl) (h.starts (.inr rfl))
        refine hread.mono (by rw [List.length_cons]; omega) fun _ us _ hus => ⟨hus.1, ?_⟩
        exact Nat.lt_succ_of_lt hus.2
      split
      · rename_i hkind
        have hword : t.kind ≠ .punct := by simp [eq_of_beq hkind]
        exact (readPath_settles ih h (Region.starts_word hword)).fuel (Nat.le_refl _)
      · exact .throw (by simp [TypeFault.IsSyntactic]) h.leaves

theorem readElements_settles (ih : SettleBelow ts.length) (h : Matched ts) :
    Settles .whole readElements (3 * ts.length + 3) ts fun _ _ => True := by
  refine Settles.succ ?_
  simp only [readElements]
  refine .atEnd_bind ?_
  split
  · exact .pure trivial
  have hwhole : Region.whole.Holds 0 ts := h
  have hread : Settles .whole readType (3 * ts.length + 2) ts _ := readType_settles ih hwhole
  refine hread.bind fun element us _ hus => .atEnd_bind ?_
  split
  · exact .pure trivial
  refine (Settles.expect "," hus.1).bind fun _ vs _ hvs => ?_
  have hless := Nat.lt_trans hvs.2 hus.2
  have hmore := ih.readElements hless hvs.1
  exact (hmore.fuel (by omega)).bind fun _ _ _ _ => .pure trivial

/-- Type arguments behind one of them. -/
def moreArguments (fuel : Nat) (argument : Reference) : TokenReader (List Reference) := do
  if ← atPunct "," 0 then skip
  else unless ← atPunct ">" 0 do
    match ← peek? with
    | some found => throw (.betweenArguments found.text found.line)
    | none => throw .openArguments
  return argument :: (← readArguments fuel)

theorem moreArguments_settles {size : Nat} {argument : Reference} (ih : SettleBelow size)
    (h : p.Holds (angles + 1) ts) (hsize : ts.length < size) :
    Settles p (moreArguments · argument) (3 * ts.length + 3) ts
      fun _ us => p.Behind angles ts us := by
  unfold moreArguments
  have hread : Settles p (fun n => do return argument :: (← readArguments n)) (3 * ts.length + 3) ts
      fun _ us => p.Behind angles ts us :=
    (ih.readArguments hsize h).bind fun _ _ _ hus => .pure hus
  refine .ifPunct (by decide) ?_ (.ifPunct (by decide) ?_ ?_)
  · rintro l us rfl
    refine .skip_bind ?_
    have hmore := ih.readArguments (Nat.lt_of_succ_lt hsize) (h.tail rfl rfl rfl)
    have hfuel : 3 * us.length + 3 ≤ 3 * (mark l "," :: us).length + 3 := by
      rw [List.length_cons]
      omega
    refine (hmore.fuel hfuel).bind fun args vs _ hvs => .pure ⟨hvs.1, ?_⟩
    exact Nat.lt_succ_of_lt hvs.2
  · rintro l us rfl
    exact hread
  · refine .peek?_bind ?_
    split
    · exact .throw_bind (by simp [TypeFault.IsSyntactic]) h.leaves
    · exact .throw_bind (by decide) h.leaves

theorem readArguments_settles (ih : SettleBelow ts.length) (h : p.Holds (angles + 1) ts) :
    Settles p readArguments (3 * ts.length + 3) ts fun _ us => p.Behind angles ts us := by
  refine Settles.succ ?_
  simp only [readArguments]
  refine .ifPunct (by decide) ?_ ?_
  · rintro l us rfl
    exact .skip_bind (.pure ⟨h.greater, Nat.lt_succ_self _⟩)
  have hmore : ∀ argument us, us.length < ts.length → p.Holds (angles + 1) us →
      Settles p (moreArguments · argument) (3 * ts.length + 2) us
        fun _ vs => p.Behind angles ts vs := by
    intro argument us hlength hus
    refine (moreArguments_settles ih hus hlength).mono (by omega) fun _ vs _ hvs => ⟨hvs.1, ?_⟩
    exact Nat.lt_trans hvs.2 hlength
  refine .peek?_bind ?_
  cases ts with
  | nil =>
      cases p with
      | whole => exact .throw_bind (by decide) h.leaves
      | header line => exact absurd rfl h.ne_nil
  | cons t ts =>
      rw [Region.next?_cons]
      dsimp only
      split
      · rename_i hword
        have hkind : t.kind ≠ .punct := by
          rcases Bool.or_eq_true_iff.mp hword with hkind | hkind <;> simp [eq_of_beq hkind]
        refine .skip_bind ?_
        exact (hmore _ ts (Nat.lt_succ_self _) (h.word hkind)).congr fun _ _ => rfl
      split
      · rename_i hmark
        obtain ⟨l, rfl⟩ := exists_mark hmark
        refine (Settles.group h rfl).bind fun run us _ hus => ?_
        exact (hmore _ us (Nat.lt_succ_of_lt hus.2.1) hus.1).congr fun _ _ => rfl
      refine .atPunct_one_bind (.atPunct_one_bind ?_)
      split
      · rename_i hbinding
        rw [Bool.and_eq_true, Bool.or_eq_true] at hbinding
        have hts : p.Holds (angles + 1) ts := h.word (by simp [eq_of_beq hbinding.1])
        have hseparator : ∃ u us, ts = u :: us ∧ p.Holds (angles + 1) us := by
          rcases hbinding.2 with hequals | hcolon
          · obtain ⟨l, us, rfl⟩ := Region.exists_cons hequals (by decide)
            exact ⟨_, us, rfl, hts.tail rfl rfl rfl⟩
          · obtain ⟨l, us, rfl⟩ := Region.exists_cons hcolon (by decide)
            exact ⟨_, us, rfl, hts.tail rfl rfl rfl⟩
        obtain ⟨u, us, rfl, hus⟩ := hseparator
        refine .next_bind (.next_bind ?_)
        refine (Settles.untilEnd hus).bind fun run vs _ hvs => ?_
        have hlength : vs.length < (t :: u :: us).length :=
          Nat.lt_succ_of_lt (Nat.lt_succ_of_lt hvs.2)
        exact (hmore _ vs hlength hvs.1).congr fun _ _ => rfl
      · exact (readType_settles ih h).bind fun argument us _ hus => hmore argument us hus.2 hus.1

theorem settleBelow (size : Nat) : SettleBelow size := by
  induction size with
  | zero => exact ⟨nofun, nofun, nofun, nofun⟩
  | succ size ih =>
      have hbelow : ∀ n ≤ size, SettleBelow n := fun n hn =>
        ⟨fun h => ih.readType (Nat.lt_of_lt_of_le h hn),
          fun h => ih.readElements (Nat.lt_of_lt_of_le h hn),
          fun h => ih.readPath (Nat.lt_of_lt_of_le h hn),
          fun h => ih.readArguments (Nat.lt_of_lt_of_le h hn)⟩
      exact ⟨fun h => readType_settles (hbelow _ (Nat.le_of_lt_succ h)),
        fun h => readElements_settles (hbelow _ (Nat.le_of_lt_succ h)),
        fun h => readPath_settles (hbelow _ (Nat.le_of_lt_succ h)),
        fun h => readArguments_settles (hbelow _ (Nat.le_of_lt_succ h))⟩

/-- **The reader of types settles.** -/
theorem reader_settles (h : p.Holds angles ts) :
    Settles p (fun _ => reader) bound ts fun _ us => p.Behind angles ts us := by
  have hfuel : ∀ rest, 3 * ts.length + 2 ≤ 3 * ((ts ++ p.beyond rest).length + 1) := by
    intro rest
    rw [List.length_append]
    omega
  cases (settleBelow (ts.length + 1)).readType (Nat.lt_succ_self _) h with
  | ok hlength hpost heq => exact .ok hlength hpost fun _ rest _ => heq _ rest (hfuel rest)
  | fault hlength hfault hleaves heq =>
      exact .fault hlength hfault hleaves fun _ rest _ => heq _ rest (hfuel rest)

end Reference

end ConversionClosure
