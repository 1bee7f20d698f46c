/-
Scanning comes to an end.

The scanner is told here by places, from the first token of a text to the last.  It follows the one
of lists, so that it never strays: it looks for groups at opening brackets only, takes tokens where
there are some, and stays within its stretch.

It can fail in one way.  Attributes and words in front of an item are tokens and groups, and a fault
of a header is noted, but the parameters of a structure or an enumeration are passed over outside of
any recovery.
-/
import ConversionClosure.Language
import ConversionClosure.Proofs.Placing

namespace ConversionClosure

open Token Scanner

/-! ### The scanner by places -/

namespace PlaceReader

/-- Passes over attributes; `fuel` bounds their number. -/
def skipAttributes : Nat → PlaceReader Unit
  | 0 => fail .outOfFuel
  | fuel + 1 => do
    if ← atPunct "#" 0 then
      let offset := if ← atPunct "!" 1 then 2 else 1
      if ← atPunct "[" offset then
        advance offset
        let _ ← group
        skipAttributes fuel

/-- Passes over the words before the keyword of an item; `fuel` bounds their number. -/
def skipWords : Nat → PlaceReader Unit
  | 0 => fail .outOfFuel
  | fuel + 1 => do
    match ← peek? 0 with
    | none => return
    | some t =>
      if t.kind == .ident && itemWords.contains t.text then
        skip
        if t.text == "pub" && (← atPunct "(" 0) then
          let _ ← group
        else if t.text == "extern" && (← peek? 0).any (·.kind == .literal) then skip
        skipWords fuel

/-- A type without a name, with the line of the keyword in front of the cursor. -/
def nameless (keyword : String) : PlaceReader Finding := do
  let before ← previous
  skipItem
  return .skipped (.nameless before.line keyword)

/-- A declared type after its keyword. -/
def typeItem (keyword : String) : PlaceReader Finding := do
  match ← peek? 0 with
  | some name =>
    if name.kind == .ident then
      skip
      let arity ← if ← atPunct "<" 0 then pure (params (← angles)).length else pure 0
      skipItem
      return .type ⟨name.text, keyword, arity⟩
    else nameless keyword
  | none => nameless keyword

/-- The header of an implementation: its parameters, its trait and the type it is for. -/
def implHeader : PlaceReader (Option (List String × Reference × Reference)) := do
  let names ← if ← atPunct "<" 0 then pure (params (← angles)) else pure []
  if ← atIdent "const" then skip
  if ← atPunct "!" 0 then return none
  let trait ← typeReader
  unless ← atIdent "for" do return none
  skip
  let target ← typeReader
  return some (names, trait, target)

/-- Runs a reader and gives its fault, if that is one of the tokens.  The cursor stays where the
reader has left it. -/
def attempt {α : Type} (reader : PlaceReader α) : PlaceReader (Except TypeFault α) := fun s c =>
  match reader s c with
  | .ok a c' => .ok (.ok a) c'
  | .error (.type fault) c' =>
    if fault.IsSyntactic then .ok (.error fault) c' else .error (.type fault) c'
  | .error (.stray stray) c' => .error (.stray stray) c'

/-- An implementation after its keyword. -/
def implItem : PlaceReader (Option Finding) := do
  let before ← previous
  let header ← attempt implHeader
  skipItem
  return headerFinding before.line header

/-- One item behind its attributes and words. -/
def item : PlaceReader (Option Finding) := do
  match ← peek? 0 with
  | none => return none
  | some t =>
    if t.isIdent "struct" || t.isIdent "enum" then
      skip
      return some (← typeItem t.text)
    else if t.isIdent "impl" then
      skip
      implItem
    else
      skipItem
      return none

/-- The findings in all tokens of the stretch; `fuel` bounds the number of items. -/
def items : Nat → PlaceReader (List Finding)
  | 0 => fail .outOfFuel
  | fuel + 1 => do
    if ← atEnd then return []
    let c ← get
    let bound := c.stop - c.place + 1
    skipAttributes bound
    skipWords bound
    let found ← item
    return found.toList ++ (← items fuel)

/-- Scans a stream from its first token on. -/
def scan (s : TokenStream) : EStateM.Result PlaceFault Cursor (List Finding) :=
  items (s.tokens.length + 1) s ⟨0, s.tokens.length⟩

end PlaceReader

/-! ### It follows the scanner of lists -/

variable {α : Type} {s : TokenStream} {c : Cursor} {ts us : List Token} {t : Token}

/-- A reader that passes over tokens comes to an end among them. -/
theorem Follows.ends {x : PlaceReader α} {y : TokenReader α} {post : α → List Token → Prop}
    (h : Follows s c x y ts) (hsettles : TokenReader.Settles .whole (fun _ => y) 0 ts post)
    (herror : ∀ fault us, y ts = .error fault us → ¬ fault.IsSyntactic) :
    ∃ a us, At s (c.leaving us) us ∧ us.length ≤ ts.length ∧ y ts = .ok a us := by
  rcases hsettles.ends with ⟨a, us, hlength, -, hread⟩ | ⟨fault, us, -, hfault, -, hread⟩
  · exact ⟨a, us, (h.of_ok hread).2, hlength, hread⟩
  · exact absurd hfault (herror fault us hread)

namespace PlaceReader

theorem skipAttributes_follows (fuel : Nat) (h : At s c ts) :
    Follows s c (skipAttributes fuel) (Scanner.skipAttributes fuel) ts := by
  induction fuel generalizing c ts with
  | zero => exact .fail h _
  | succ fuel ih =>
      simp only [skipAttributes, Scanner.skipAttributes]
      refine .atPunct_bind h (.branch (fun _ => .atPunct_bind h ?_) fun _ => .pure h ())
      -- The exclamation mark only tells where the group begins.
      generalize (if ts[1]?.any (·.isPunct "!") = true then 2 else 1) = offset
      refine .atPunct_bind h (.branch (fun hopens => ?_) fun _ => .pure h ())
      have hoffset : offset < ts.length := by
        by_contra hle
        simp [List.getElem?_eq_none (Nat.not_lt.mp hle)] at hopens
      refine .ok_bind (advance_drop h (Nat.le_of_lt hoffset)) (TokenReader.modify_apply _ ts) ?_
      have hat := h.leave (List.drop_suffix offset ts)
      rw [← List.head?_drop] at hopens
      generalize ts.drop offset = us at hopens hat ⊢
      cases us with
      | nil => simp at hopens
      | cons o us =>
          obtain ⟨l, rfl⟩ := exists_mark (show o.isPunct "[" = true from hopens)
          exact .group_bind hat rfl fun run vs hat => ih hat

theorem skipWords_follows (fuel : Nat) (h : At s c ts) :
    Follows s c (skipWords fuel) (Scanner.skipWords fuel) ts := by
  induction fuel generalizing c ts with
  | zero => exact .fail h _
  | succ fuel ih =>
      simp only [skipWords, Scanner.skipWords]
      refine .peek?_bind h ?_
      cases ts with
      | nil => exact .pure h ()
      | cons t ts =>
          refine .branch (fun _ => .skip_bind h fun hat => ?_) fun _ => .pure h ()
          refine .atPunct_bind hat (.branch (fun hpub => ?_) fun _ => ?_)
          · rw [Bool.and_eq_true] at hpub
            cases ts with
            | nil => simp at hpub
            | cons o ts =>
                obtain ⟨l, rfl⟩ := exists_mark (show o.isPunct "(" = true from hpub.2)
                exact .group_bind hat rfl fun run us hat => ih hat
          · refine .peek?_bind hat ?_
            cases ts with
            | nil => exact .branch (fun hliteral => by simp at hliteral) fun _ => ih hat
            | cons u ts =>
                exact .branch (fun _ => .skip_bind hat fun hat => ih hat) fun _ => ih hat

theorem skipItem_bind {β : Type} {f : Unit → PlaceReader β} {g : Unit → TokenReader β}
    (h : At s c ts)
    (hf : ∀ us, At s (c.leaving us) us → Follows s (c.leaving us) (f ()) (g ()) us) :
    Follows s c (skipItem >>= f) (Scanner.skipItem >>= g) ts :=
  .ok_bind (skipItem_apply h) (Scanner.skipItem_apply ts)
    (hf _ (h.leave (Run.afterItem_suffix 0 false ts)))

theorem angles_bind {β : Type} {f : List Token → PlaceReader β} {g : List Token → TokenReader β}
    {l : Nat} (h : At s c (mark l "<" :: ts))
    (hf : ∀ run us, At s (c.leaving us) us → Follows s (c.leaving us) (f run) (g run) us) :
    Follows s c (angles >>= f) (TokenReader.angles >>= g) (mark l "<" :: ts) := by
  have hx := angles_apply h
  have hy := TokenReader.angles_apply (mark l "<" :: ts)
  cases hrun : Run.angles? 0 0 (mark l "<" :: ts) with
  | none =>
      rw [hrun] at hx hy
      exact .error_bind hx hy (h.leave List.nil_suffix)
  | some split =>
      rw [hrun] at hx hy
      have hsuffix : split.2 <:+ mark l "<" :: ts := ⟨_, Run.angles?_append_eq hrun⟩
      exact .ok_bind hx hy (hf _ _ (h.leave hsuffix))

/-- Only a reader by places looks back. -/
theorem previous_bind {f : Token → PlaceReader α} {y : TokenReader α} (h : At s c (t :: ts))
    (hf : Follows s (c.leaving ts) (f t) y ts) :
    Follows s (c.leaving ts) (previous >>= f) y ts := by
  have hx : (previous >>= f) s (c.leaving ts) = f t s (c.leaving ts) := by
    rw [bind_apply, previous_apply h]
  exact .congr hf hx rfl

/-- Behind the keyword of a type. -/
theorem typeItem_follows (keyword : String) (h : At s c (t :: ts)) :
    Follows s (c.leaving ts) (typeItem keyword) (Scanner.typeItem keyword t.line) ts := by
  have hrest : ∀ (found : Finding) us, At s (c.leaving us) us →
      Follows s (c.leaving us) (do skipItem; return found)
        (do Scanner.skipItem; return found) us :=
    fun found us hat => skipItem_bind hat fun _ hat => .pure hat _
  simp only [typeItem, Scanner.typeItem]
  refine .peek?_bind h.tail ?_
  cases ts with
  | nil =>
      refine previous_bind h (.congr (.pure h.tail _) ?_ rfl)
      rw [bind_apply, skipItem_apply h.tail]
      rfl
  | cons name ts =>
      refine .branch (fun _ => .skip_bind h.tail fun hat => ?_) fun _ => ?_
      · refine .ifPunct hat ?_ (hrest _ ts hat)
        rintro l us rfl
        exact angles_bind hat fun run vs hat => hrest _ vs hat
      · exact previous_bind h (hrest _ _ h.tail)

/-- The header of an implementation behind its parameters. -/
def traitFor (names : List String) :
    PlaceReader (Option (List String × Reference × Reference)) := do
  if ← atPunct "!" 0 then return none
  let trait ← typeReader
  unless ← atIdent "for" do return none
  skip
  let target ← typeReader
  return some (names, trait, target)

theorem traitFor_follows (names : List String) (h : At s c ts) :
    Follows s c (traitFor names) (Scanner.traitFor names) ts := by
  unfold traitFor Scanner.traitFor
  refine .ifPunct h ?_ ?_
  · rintro l us rfl
    exact .pure h _
  refine .bind (typeReader_follows h) fun trait us hat => .ifIdent hat ?_ (.pure hat _)
  rintro t us rfl
  refine .skip_bind hat fun hat => ?_
  exact .bind (typeReader_follows hat) fun target vs hat => .pure hat _

theorem implHeader_follows (h : At s c ts) :
    Follows s c implHeader Scanner.implHeader ts := by
  have hconst : ∀ names c us, At s c us → Follows s c
      (do
        if ← atIdent "const" then
          skip
          traitFor names
        else traitFor names)
      (do
        if ← TokenReader.atIdent "const" then
          TokenReader.skip
          Scanner.traitFor names
        else Scanner.traitFor names) us := by
    intro names c us hat
    refine .ifIdent hat ?_ (traitFor_follows names hat)
    rintro t us rfl
    exact .skip_bind hat fun hat => traitFor_follows names hat
  simp only [implHeader, Scanner.implHeader]
  refine .ifPunct h ?_ (hconst [] c ts h)
  rintro l us rfl
  exact angles_bind h fun run vs hat => hconst (params run) _ vs hat

/-- Behind the keyword of an implementation. -/
theorem implItem_follows (h : At s c (t :: ts)) :
    Follows s (c.leaving ts) implItem (Scanner.implItem t.line) ts := by
  unfold implItem
  refine previous_bind h ?_
  have hrest : ∀ header us, At s (c.leaving us) us →
      attempt implHeader s (c.leaving ts) = .ok header (c.leaving us) →
      Scanner.implItem t.line ts = .ok (headerFinding t.line header) (Run.afterItem 0 false us) →
      Follows s (c.leaving ts) (do
        let header ← attempt implHeader
        skipItem
        return headerFinding t.line header) (Scanner.implItem t.line) ts := by
    intro header us hat hattempt hlist
    refine .ok ?_ hlist (hat.leave (Run.afterItem_suffix 0 false us))
    rw [bind_apply, hattempt]
    simp only [bind_apply, skipItem_apply hat, pure_apply, Cursor.leaving_leaving]
  have hwhole : Region.whole.Holds 0 ts := h.tail.matched
  have hfollows := implHeader_follows h.tail
  rcases (implHeader_settles hwhole : TokenReader.Settles _ _ 0 _ _).ends with
    ⟨header, us, -, -, hheader⟩ | ⟨fault, us, -, hfault, -, hheader⟩
  · obtain ⟨hx, hat⟩ := hfollows.of_ok hheader
    have hattempt : attempt implHeader s (c.leaving ts) = .ok (.ok header) (c.leaving us) := by
      rw [attempt, hx]
      rfl
    exact hrest _ us hat hattempt (implItem_ok t.line hheader)
  · obtain ⟨hx, hat⟩ := hfollows.of_error hheader
    have hattempt : attempt implHeader s (c.leaving ts) = .ok (.error fault) (c.leaving us) := by
      rw [attempt, hx]
      exact if_pos hfault
    exact hrest _ us hat hattempt (implItem_fault t.line hfault hheader)

theorem item_follows (h : At s c ts) : Follows s c item Scanner.item ts := by
  simp only [item, Scanner.item]
  refine .peek?_bind h ?_
  cases ts with
  | nil => exact .pure h _
  | cons t ts =>
      refine .branch (fun _ => ?_) fun _ => .branch (fun _ => ?_) fun _ => ?_
      · refine .skip_bind h fun _ => ?_
        exact .bind (typeItem_follows t.text h) fun found us hat => .pure hat _
      · exact .skip_bind h fun _ => implItem_follows h
      · exact skipItem_bind h fun us hat => .pure hat _

theorem items_follows (fuel : Nat) (h : At s c ts) :
    Follows s c (items fuel) (Scanner.items fuel) ts := by
  induction fuel generalizing c ts with
  | zero => exact .fail h _
  | succ fuel ih =>
      simp only [items, Scanner.items]
      refine .atEnd_bind h (.branch (fun _ => .pure h _) fun _ => ?_)
      have hlength : c.stop - c.place = ts.length := by
        rw [h.stop_eq, Nat.add_sub_cancel_left]
      refine .look_bind h (get_apply s c) (TokenReader.get_apply ts) ?_
      rw [hlength]
      refine .bind (skipAttributes_follows _ h) fun _ us hat => ?_
      refine .bind (skipWords_follows _ hat) fun _ vs hat => ?_
      refine .bind (item_follows hat) fun found ws hat => ?_
      exact .bind (ih hat) fun more xs hat => .pure hat _

end PlaceReader

/-! ### The one way to fail -/

namespace Scanner

open TokenReader

variable {line fuel : Nat} {keyword : String} {fault : TypeFault}

/-- A structure or an enumeration with a name, and with parameters that do not end. -/
def OpensAngles (ts : List Token) : Prop :=
  ∃ keyword name l us, ts = keyword :: name :: mark l "<" :: us ∧
    (keyword.isIdent "struct" || keyword.isIdent "enum") = true ∧ name.kind = .ident ∧
    Run.angles? 0 0 (mark l "<" :: us) = none

/-- The scanner comes to an item with the last ones of these tokens left, behind the attributes and
words of that item. -/
inductive ComesTo : List Token → List Token → Prop
  | first {ts us vs : List Token} (hattributes : skipAttributes (ts.length + 1) ts = .ok () us)
      (hwords : skipWords (ts.length + 1) us = .ok () vs) : ComesTo ts vs
  | later {ts us vs : List Token} {found : Option Finding}
      (hitem : itemBehind (ts.length + 1) ts = .ok found us) (h : ComesTo us vs) : ComesTo ts vs

theorem group_error (h : group ts = .error fault us) : ¬ fault.IsSyntactic := by
  unfold group at h
  simp only [bind_apply, get_apply] at h
  cases hgroup : Run.group? ts with
  | none =>
      rw [hgroup] at h
      cases h
      exact fun hfault => hfault.1 rfl
  | some split =>
      rw [hgroup] at h
      cases h

theorem skipAttributes_error (h : skipAttributes fuel ts = .error fault us) :
    ¬ fault.IsSyntactic := by
  induction fuel generalizing ts with
  | zero =>
      cases h
      exact fun hfault => hfault.2 rfl
  | succ fuel ih =>
      simp only [skipAttributes, bind_apply, atPunct_apply, branch_apply, modify_apply] at h
      split at h
      · generalize (if ts[1]?.any (·.isPunct "!") = true then 2 else 1) = offset at h
        split at h
        · cases hgroup : group (ts.drop offset) with
          | error fault' vs =>
              rw [hgroup] at h
              cases h
              exact group_error hgroup
          | ok run vs =>
              rw [hgroup] at h
              exact ih h
        · cases h
      · cases h

theorem skipWords_error (h : skipWords fuel ts = .error fault us) : ¬ fault.IsSyntactic := by
  induction fuel generalizing ts with
  | zero =>
      cases h
      exact fun hfault => hfault.2 rfl
  | succ fuel ih =>
      cases ts with
      | nil => cases h
      | cons t ts =>
          simp only [skipWords, bind_apply, peek?_apply, List.head?_cons, branch_apply, skip_apply,
            List.tail_cons, atPunct_apply] at h
          split at h
          · split at h
            · cases hgroup : group ts with
              | error fault' vs =>
                  rw [hgroup] at h
                  cases h
                  exact group_error hgroup
              | ok run vs =>
                  rw [hgroup] at h
                  exact ih h
            split at h
            · exact ih h
            · exact ih h
          · cases h

theorem typeItem_error (h : typeItem keyword line ts = .error fault us) :
    fault = .openAngle ∧ us = [] ∧ ∃ name l vs, ts = name :: mark l "<" :: vs ∧
      name.kind = .ident ∧ Run.angles? 0 0 (mark l "<" :: vs) = none := by
  cases ts with
  | nil => cases h
  | cons name ts =>
      simp only [typeItem, bind_apply, peek?_apply, List.head?_cons, branch_apply, skip_apply,
        List.tail_cons, atPunct_apply] at h
      split at h
      · rename_i hkind
        cases ts with
        | nil => cases h
        | cons t ts =>
            split at h
            · rename_i hless
              obtain ⟨l, rfl⟩ := exists_mark (show t.isPunct "<" = true from hless)
              rw [angles_apply] at h
              cases hrun : Run.angles? 0 0 (mark l "<" :: ts) with
              | none =>
                  rw [hrun] at h
                  cases h
                  exact ⟨rfl, rfl, name, l, ts, rfl, eq_of_beq hkind, hrun⟩
              | some split =>
                  rw [hrun] at h
                  cases h
            · cases h
      · cases h

/-- An implementation is passed over whether or not its header can be read. -/
theorem exists_implItem_ok (line : Nat) (h : Matched ts) :
    ∃ found us, implItem line ts = .ok found us := by
  have hwhole : Region.whole.Holds 0 ts := h
  rcases (implHeader_settles hwhole : Settles _ _ 0 _ _).ends with
    ⟨header, us, -, -, hheader⟩ | ⟨fault, us, -, hfault, -, hheader⟩
  · exact ⟨_, _, implItem_ok line hheader⟩
  · exact ⟨_, _, implItem_fault line hfault hheader⟩

theorem item_error (hmatched : Matched ts) (h : item ts = .error fault us) :
    fault = .openAngle ∧ us = [] ∧ OpensAngles ts := by
  cases ts with
  | nil => cases h
  | cons t ts =>
      simp only [item, bind_apply, peek?_apply, List.head?_cons, branch_apply, skip_apply,
        List.tail_cons] at h
      split at h
      · rename_i hkeyword
        cases htype : typeItem t.text t.line ts with
        | ok found vs =>
            rw [htype] at h
            cases h
        | error fault' vs =>
            rw [htype] at h
            cases h
            obtain ⟨hfault, hus, name, l, vs, rfl, hname⟩ := typeItem_error htype
            exact ⟨hfault, hus, t, name, l, vs, rfl, hkeyword, hname⟩
      split at h
      · obtain ⟨found, vs, himpl⟩ := exists_implItem_ok t.line hmatched.tail
        rw [himpl] at h
        cases h
      · cases h

/-- One item is passed over, or its parameters do not end. -/
theorem itemBehind_ends (h : At s c ts) (hne : ts ≠ []) :
    (∃ found us, At s (c.leaving us) us ∧ us.length < ts.length ∧
      itemBehind (ts.length + 1) ts = .ok found us) ∨
    ∃ us, At s (c.leaving us) us ∧ ComesTo ts us ∧ OpensAngles us ∧
      itemBehind (ts.length + 1) ts = .error .openAngle [] := by
  obtain ⟨_, us, hus, hlength, hattributes⟩ :=
    (PlaceReader.skipAttributes_follows (ts.length + 1) h).ends
      ((skipAttributes_settles h.matched).with_fuel (Nat.le_refl _))
      fun _ _ => skipAttributes_error
  obtain ⟨_, vs, hvs, hlength', hwords⟩ :=
    (PlaceReader.skipWords_follows (ts.length + 1) hus).ends
      ((skipWords_settles hus.matched).with_fuel (Nat.succ_le_succ hlength))
      fun _ _ => skipWords_error
  have hbehind : itemBehind (ts.length + 1) ts = item vs := by
    simp only [itemBehind, bind_apply, hattributes, hwords]
  rw [hbehind]
  cases hitem : item vs with
  | error fault ws =>
      obtain ⟨rfl, rfl, hopens⟩ := item_error hvs.matched hitem
      exact .inr ⟨vs, hvs, .first hattributes hwords, hopens, rfl⟩
  | ok found ws =>
      -- That tokens are taken is known of all that stands in front of the item together with it.
      have hless : ws.length < ts.length := by
        rcases (itemBehind_settles h.matched hne : Settles _ _ 0 _ _).ends with
          ⟨_, _, -, hleft, heq⟩ | ⟨_, _, -, -, -, heq⟩
        · rw [hbehind, hitem] at heq
          cases heq
          exact hleft.2
        · rw [hbehind, hitem] at heq
          cases heq
      have hat := ((PlaceReader.item_follows hvs).of_ok hitem).2
      exact .inl ⟨found, ws, hat, hless, rfl⟩

theorem items_ends (h : At s c ts) (hfuel : ts.length < fuel) :
    (∃ found, items fuel ts = .ok found []) ∨
    ∃ us, At s (c.leaving us) us ∧ ComesTo ts us ∧ OpensAngles us ∧
      items fuel ts = .error .openAngle [] := by
  induction fuel generalizing c ts with
  | zero => exact absurd hfuel (Nat.not_lt_zero _)
  | succ fuel ih =>
      by_cases hne : ts = []
      · subst hne
        exact .inl ⟨[], rfl⟩
      rw [items_succ fuel hne, bind_apply]
      rcases itemBehind_ends h hne with
        ⟨found, us, hat, hless, hitem⟩ | ⟨us, hat, hcomes, hopens, hitem⟩
      · rw [hitem]
        dsimp only
        rw [map_apply]
        rcases ih hat (Nat.lt_of_lt_of_le hless (Nat.le_of_lt_succ hfuel)) with
          ⟨more, hitems⟩ | ⟨vs, hat', hcomes, hopens, hitems⟩
        · rw [hitems]
          exact .inl ⟨_, rfl⟩
        · rw [hitems]
          exact .inr ⟨vs, hat', .later hitem hcomes, hopens, rfl⟩
      · rw [hitem]
        exact .inr ⟨us, hat, hcomes, hopens, rfl⟩

end Scanner

/-- A cursor at the first token of a stream has all of them before it. -/
theorem At.start {pairs : List (Nat × Nat)} (h : Balanced ts) (hpairs : Matches ts pairs) :
    At ⟨ts, pairs⟩ ⟨0, ts.length⟩ ts where
  matching := hpairs
  place_le := Nat.zero_le _
  stop_le := Nat.le_refl _
  between_eq := List.take_length
  matched := h.matched

/-- Scanning by places ends at the end of the stream, with what the scanner finds or with its
fault. -/
theorem PlaceReader.scan_ends {pairs : List (Nat × Nat)} (h : Balanced ts)
    (hpairs : Matches ts pairs) :
    (∃ found, scan ⟨ts, pairs⟩ = .ok found ⟨ts.length, ts.length⟩ ∧
      ConversionClosure.scan ts = .ok found) ∨
    scan ⟨ts, pairs⟩ = .error (.type .openAngle) ⟨ts.length, ts.length⟩ ∧
      ConversionClosure.scan ts = .error .openAngle ∧
      ∃ us, us <:+ ts ∧ ComesTo ts us ∧ OpensAngles us := by
  have hat : At ⟨ts, pairs⟩ ⟨0, ts.length⟩ ts := .start h hpairs
  have hfollows := items_follows (ts.length + 1) hat
  rcases items_ends hat (Nat.lt_succ_self _) with
    ⟨found, hitems⟩ | ⟨us, hus, hcomes, hopens, hitems⟩
  · exact .inl ⟨found, (hfollows.of_ok hitems).1, by rw [ConversionClosure.scan, hitems]⟩
  · exact .inr ⟨(hfollows.of_error hitems).1, by rw [ConversionClosure.scan, hitems], us,
      hus.suffix rfl, hcomes, hopens⟩

/-- **Scanning any text comes to an end, and fails in known ways only.**  A text without tokens is a
fault of its unit, and there is no other.  Of the tokens of a text the scanner makes a unit, unless
it comes to a structure or an enumeration with a name and with parameters that do not end.  Told by
places, the scanner does the same and never strays: it asks for groups at opening brackets only,
every token it asks for is there, and no cursor moves behind the end of its stretch. -/
theorem Format.parseSource_ends (path : Path) (text : String) :
    (∀ fault, parseSource path text = .error (.unit path (.lex fault)) ↔
      tokenize text = .error fault) ∧
    ∀ ts, tokenize text = .ok ts → ∃ pairs, groups ts = .ok pairs ∧
      ((∃ found, parseSource path text = .ok (.ofFindings path found) ∧
        PlaceReader.scan ⟨ts, pairs⟩ = .ok found ⟨ts.length, ts.length⟩) ∨
      parseSource path text = .error (.type .openAngle) ∧
        PlaceReader.scan ⟨ts, pairs⟩ = .error (.type .openAngle) ⟨ts.length, ts.length⟩ ∧
        ∃ us, us <:+ ts ∧ ComesTo ts us ∧ OpensAngles us) := by
  refine ⟨fun fault => ?_, fun ts htokens => ?_⟩
  · cases htokens : tokenize text with
    | error fault' => simp [parseSource, htokens]
    | ok ts =>
        simp only [parseSource, htokens]
        cases scan ts with
        | error fault' => simp
        | ok found => simp
  · have hbalanced := balanced_of_tokenize htokens
    obtain ⟨pairs, hpairs, hmatches⟩ := hbalanced.exists_groups
    refine ⟨pairs, hpairs, ?_⟩
    rcases PlaceReader.scan_ends hbalanced hmatches with
      ⟨found, hplaces, hscan⟩ | ⟨hplaces, hscan, hopens⟩
    · exact .inl ⟨found, by simp only [parseSource, htokens, hscan], hplaces⟩
    · exact .inr ⟨by simp only [parseSource, htokens, hscan], hplaces, hopens⟩

example : Format.parseSource (.ofText "a.rs") "struct A<T;" = .error (.type .openAngle) := by
  decide +kernel

end ConversionClosure
