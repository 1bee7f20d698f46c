/-
Reading references that are spelled out.

`Spells ts r` says that the tokens `ts` spell the reference `r`.  It goes by the form of the
reference and leaves open what does not matter for reading it: the lines of the tokens, a mark in
front of a path, a comma behind the last argument.

A reader that starts in front of such tokens takes just these and gives the reference, when what
follows them cannot be a part of it.  That is one of three facts that every form hands on from its
parts, and that are told together as `Reads`.
-/
import ConversionClosure.Proofs.Legible
import ConversionClosure.Reference.Reader

namespace ConversionClosure

open Token

variable {l l' : Nat} {rest ts us : List Token} {t : Token}

namespace TokenReader

variable {α β : Type}

/-! ### Readers on a list of tokens -/

@[simp] theorem pure_apply (a : α) (ts : List Token) : (pure a : TokenReader α) ts = .ok a ts := rfl

@[simp] theorem bind_apply (x : TokenReader α) (f : α → TokenReader β) (ts : List Token) :
    (x >>= f) ts =
      match x ts with
      | .ok a us => f a us
      | .error fault us => .error fault us := by
  show EStateM.bind x f ts = _
  unfold EStateM.bind
  cases x ts with
  | ok a us => rfl
  | error fault us => rfl

@[simp] theorem map_apply (f : α → β) (x : TokenReader α) (ts : List Token) :
    (f <$> x) ts =
      match x ts with
      | .ok a us => .ok (f a) us
      | .error fault us => .error fault us := by
  show EStateM.map f x ts = _
  unfold EStateM.map
  cases x ts with
  | ok a us => rfl
  | error fault us => rfl

@[simp] theorem branch_apply {c : Prop} [Decidable c] (x y : TokenReader α) (ts : List Token) :
    (if c then x else y) ts = if c then x ts else y ts := by
  split <;> rfl

@[simp] theorem get_apply (ts : List Token) : (get : TokenReader (List Token)) ts = .ok ts ts := rfl

@[simp] theorem modify_apply (f : List Token → List Token) (ts : List Token) :
    (modify f : TokenReader Unit) ts = .ok () (f ts) := rfl

@[simp] theorem peek?_apply (ts : List Token) : peek? ts = .ok ts.head? ts := rfl

@[simp] theorem atEnd_apply (ts : List Token) : atEnd ts = .ok ts.isEmpty ts := rfl

@[simp] theorem skip_apply (ts : List Token) : skip ts = .ok () ts.tail := rfl

@[simp] theorem next_cons (t : Token) (ts : List Token) : next (t :: ts) = .ok t ts := rfl

@[simp] theorem atPunct_apply (text : String) (offset : Nat) (ts : List Token) :
    atPunct text offset ts = .ok (ts[offset]?.any (·.isPunct text)) ts := rfl

@[simp] theorem atIdent_apply (text : String) (ts : List Token) :
    atIdent text ts = .ok (ts.head?.any (·.isIdent text)) ts := rfl

@[simp] theorem expect_mark (text : String) (ts : List Token) :
    expect text (mark l text :: ts) = .ok () ts := by
  simp [expect]

theorem angles_apply (ts : List Token) :
    angles ts =
      match Run.angles? 0 0 ts with
      | some (run, rest) => .ok run rest
      | none => .error .openAngle [] := by
  unfold angles
  simp only [bind_apply, get_apply]
  cases Run.angles? 0 0 ts with
  | none => rfl
  | some split => rfl

theorem untilEnd_apply (ts : List Token) :
    untilEnd ts =
      if (Run.untilEnd 0 0 ts).1.isEmpty then .error .noType ts
      else .ok (Run.untilEnd 0 0 ts).1 (Run.untilEnd 0 0 ts).2 := by
  unfold untilEnd
  rw [bind_apply, get_apply]
  cases hempty : (Run.untilEnd 0 0 ts).1.isEmpty with
  | false => simp only [hempty]; rfl
  | true => simp only [hempty]; rfl

theorem group_balanced {o c : Token} {k : Bracket} (ho : o.opens? = some k)
    (hc : c.closes? = some k) (h : Balanced ts) :
    group (o :: (ts ++ c :: rest)) = .ok (o :: (ts ++ [c])) rest := by
  unfold group
  simp only [bind_apply, get_apply, Balanced.group?_append ho hc h]
  rfl

theorem within_ok {reader : TokenReader α} {a : α} (h : reader ts = .ok a us) :
    within ts reader rest = .ok a rest := by
  rw [within, h]

end TokenReader

namespace Reference

open TokenReader

variable {r inner : Reference} {args : List Reference} {fuel : Nat}

/-! ### The first token of a type and the first token behind it -/

/-- What comes behind a type is not read as a part of it, nor does it make an argument a binding. -/
def Follows (rest : List Token) : Prop :=
  ∀ t ∈ rest.head?, ∀ text ∈ ["!", "(", "::", "<", "=", ":"], t.isPunct text = false

theorem follows_nil : Follows [] := by simp [Follows]

theorem follows_cons : Follows (t :: ts) ↔
    ∀ text ∈ ["!", "(", "::", "<", "=", ":"], t.isPunct text = false := by
  simp [Follows]

theorem Follows.any_head {text : String} (h : Follows rest)
    (htext : text ∈ ["!", "(", "::", "<", "=", ":"]) :
    rest[0]?.any (·.isPunct text) = false := by
  cases rest with
  | nil => rfl
  | cons t rest => simpa using follows_cons.mp h text htext

/-- The token begins a reference that is spelled out. -/
def Begins (t : Token) : Prop :=
  t.kind = .punct ∧ t.text ∈ ["&", "*", "(", "[", "::"] ∨ t.kind = .ident ∧ t.text ∉ reservedStarts

theorem Begins.isPunct {text : String} (h : Begins t) (htext : text ∉ ["&", "*", "(", "[", "::"]) :
    t.isPunct text = false := by
  rw [Token.isPunct, Bool.and_eq_false_iff, beq_eq_false_iff_ne, beq_eq_false_iff_ne]
  rcases h with ⟨-, hmem⟩ | ⟨hkind, -⟩
  · refine Or.inr fun heq => htext ?_
    rwa [heq] at hmem
  · exact Or.inl (by simp [hkind])

theorem Begins.kind_ne (h : Begins t) : t.kind ≠ .lifetime ∧ t.kind ≠ .literal := by
  rcases h with ⟨hkind, -⟩ | ⟨hkind, -⟩
  · simp [hkind]
  · simp [hkind]

theorem Begins.isIdent_mut (h : Begins t) : t.isIdent "mut" = false := by
  rw [Token.isIdent, Bool.and_eq_false_iff, beq_eq_false_iff_ne, beq_eq_false_iff_ne]
  rcases h with ⟨hkind, -⟩ | ⟨-, hmem⟩
  · exact Or.inl (by simp [hkind])
  · refine Or.inr fun heq => hmem ?_
    simp [heq, reservedStarts]

/-- The tokens begin a reference that is spelled out, and no binding. -/
def Leads (ts : List Token) : Prop :=
  ∃ t us, ts = t :: us ∧ Begins t ∧
    ∀ u ∈ us.head?, t.kind = .ident → u.isPunct "=" = false ∧ u.isPunct ":" = false

theorem Leads.ne_nil (h : Leads ts) : ts ≠ [] := by
  obtain ⟨t, us, rfl, -⟩ := h
  exact List.cons_ne_nil t us

theorem leads_mark {text : String} (h : text ∈ ["&", "*", "(", "[", "::"]) :
    Leads (mark l text :: ts) :=
  ⟨mark l text, ts, rfl, Or.inl ⟨rfl, h⟩, by simp⟩

/-- A name leads a reference when no binding can come out of it. -/
theorem leads_name {text : String} (htext : text ∉ reservedStarts)
    (hts : ∀ u ∈ ts.head?, u.isPunct "=" = false ∧ u.isPunct ":" = false) :
    Leads (name l text :: ts) :=
  ⟨name l text, ts, rfl, Or.inr ⟨rfl, htext⟩, fun u hu _ => hts u hu⟩

/-! ### What reading tokens comes to -/

/-- The tokens are read as the reference: they lead a reference and their brackets match, and with
fuel for them the reference is read, whatever follows. -/
structure Reads (ts : List Token) (r : Reference) : Prop where
  leads : ∀ rest, Follows rest → Leads (ts ++ rest)
  balanced : Balanced ts
  read : ∀ fuel rest, Follows rest → 3 * ts.length ≤ fuel →
    readType fuel (ts ++ rest) = .ok r rest

/-- Runs with commas between them, each with something that it stands for; the flag tells whether a
comma is the last token, or there is no run at all. -/
inductive Listed {β : Type} : List (List Token × β) → Bool → List Token → Prop
  | nil : Listed [] true []
  | last {run : List Token} {b : β} : Listed [(run, b)] false run
  | cons {l : Nat} {run : List Token} {b : β} {items : List (List Token × β)} {trailing : Bool}
      {ts : List Token} (h : Listed items trailing ts) :
      Listed ((run, b) :: items) trailing (run ++ mark l "," :: ts)

theorem Listed.balanced {β : Type} {items : List (List Token × β)} {trailing : Bool}
    (h : Listed items trailing ts) (hitems : ∀ p ∈ items, Balanced p.1) : Balanced ts := by
  induction h with
  | nil => exact .nil
  | @last run b => exact hitems (run, b) (by simp)
  | @cons l run b items trailing ts _ ih =>
      have hrun : Balanced run := hitems (run, b) (by simp)
      exact hrun.append (.inner (isInner_mark rfl rfl) (ih fun p hp => hitems p (by simp [hp])))

variable {items : List (List Token × Reference)} {trailing : Bool}

/-! ### Type arguments -/

/-- The tokens that lead a type are none of those that make an argument something else. -/
theorem readArguments_cons {a : Reference} {as : List Reference} {vs : List Token}
    (hts : Leads ts) (hread : readType fuel ts = .ok a us)
    (hus : us = mark l "," :: vs ∨ us = vs ∧ ∃ l' ws, vs = mark l' ">" :: ws)
    (has : readArguments fuel vs = .ok as rest) :
    readArguments (fuel + 1) ts = .ok (a :: as) rest := by
  obtain ⟨t, more, rfl, hbegins, hbinding⟩ := hts
  have hclose : t.isPunct ">" = false := hbegins.isPunct (by simp)
  have hcurly : t.isPunct (Bracket.opener .curly) = false :=
    hbegins.isPunct (by simp [Bracket.opener])
  have hnone : ¬ (t.kind = .ident ∧ (Option.any (·.isPunct "=") more[0]? = true ∨
      Option.any (·.isPunct ":") more[0]? = true)) := by
    rintro ⟨hkind, hseparator⟩
    cases more with
    | nil => simp at hseparator
    | cons u more => simp [hbinding u rfl hkind] at hseparator
  rw [readArguments]
  simp [hclose, hbegins.kind_ne, hcurly, hread, hnone]
  rcases hus with rfl | ⟨rfl, l', ws, rfl⟩
  · simp [has]
  · simp [has]

theorem readArguments_close :
    readArguments (fuel + 1) (mark l ">" :: rest) = .ok [] rest := by
  rw [readArguments]
  simp

/-- Listed arguments are read, with the angle bracket behind them. -/
theorem readArguments_listed (hlisted : Listed items trailing ts)
    (hitems : ∀ p ∈ items, Reads p.1 p.2) (hfuel : 3 * (ts.length + 1) ≤ fuel) :
    readArguments fuel (ts ++ mark l ">" :: rest) = .ok (items.map Prod.snd) rest := by
  induction hlisted generalizing fuel with
  | nil =>
      obtain ⟨fuel, rfl⟩ : ∃ n, fuel = n + 1 := ⟨fuel - 1, by omega⟩
      exact readArguments_close
  | @last run a =>
      have hrun : Reads run a := hitems (run, a) (by simp)
      have hfollows : Follows (mark l ">" :: rest) := follows_cons.mpr (by simp)
      obtain ⟨fuel, rfl⟩ : ∃ n, fuel = n + 1 + 1 := ⟨fuel - 2, by omega⟩
      exact readArguments_cons (l := l) (hrun.leads _ hfollows) (hrun.read _ _ hfollows (by omega))
        (.inr ⟨rfl, l, rest, rfl⟩) readArguments_close
  | @cons k run a items trailing ts _ ih =>
      have hrun : Reads run a := hitems (run, a) (by simp)
      have hfollows : Follows (mark k "," :: (ts ++ mark l ">" :: rest)) :=
        follows_cons.mpr (by simp)
      rw [List.length_append, List.length_cons] at hfuel
      obtain ⟨fuel, rfl⟩ : ∃ n, fuel = n + 1 := ⟨fuel - 1, by omega⟩
      rw [List.append_assoc]
      exact readArguments_cons (hrun.leads _ hfollows) (hrun.read _ _ hfollows (by omega))
        (.inl rfl) (ih (fun p hp => hitems p (by simp [hp])) (by omega))

/-! ### Elements of a tuple -/

theorem readElements_nil : readElements (fuel + 1) [] = .ok ([], true) [] := by
  rw [readElements]
  simp

theorem readElements_last {a : Reference} (hts : ts ≠ []) (hread : readType fuel ts = .ok a []) :
    readElements (fuel + 1) ts = .ok ([a], false) [] := by
  rw [readElements]
  simp [hts, hread]

theorem readElements_cons {a : Reference} {as : List Reference} (hts : ts ≠ [])
    (hread : readType fuel ts = .ok a (mark l "," :: us))
    (has : readElements fuel us = .ok (as, trailing) rest) :
    readElements (fuel + 1) ts = .ok (a :: as, trailing) rest := by
  rw [readElements]
  simp [hts, hread, has]

/-- Listed elements are read up to the end, and whether there is a comma at the end is told. -/
theorem readElements_listed (hlisted : Listed items trailing ts)
    (hitems : ∀ p ∈ items, Reads p.1 p.2) (hfuel : 3 * (ts.length + 1) ≤ fuel) :
    readElements fuel ts = .ok (items.map Prod.snd, trailing) [] := by
  induction hlisted generalizing fuel with
  | nil =>
      obtain ⟨fuel, rfl⟩ : ∃ n, fuel = n + 1 := ⟨fuel - 1, by omega⟩
      exact readElements_nil
  | @last run a =>
      have hrun : Reads run a := hitems (run, a) (by simp)
      obtain ⟨fuel, rfl⟩ : ∃ n, fuel = n + 1 := ⟨fuel - 1, by omega⟩
      have hread := hrun.read fuel [] follows_nil (by omega)
      have hne := (hrun.leads [] follows_nil).ne_nil
      rw [List.append_nil] at hread hne
      exact readElements_last hne hread
  | @cons k run a items trailing ts _ ih =>
      have hrun : Reads run a := hitems (run, a) (by simp)
      have hfollows : Follows (mark k "," :: ts) := follows_cons.mpr (by simp)
      rw [List.length_append, List.length_cons] at hfuel
      obtain ⟨fuel, rfl⟩ : ∃ n, fuel = n + 1 := ⟨fuel - 1, by omega⟩
      exact readElements_cons (hrun.leads _ hfollows).ne_nil
        (hrun.read _ _ hfollows (by omega)) (ih (fun p hp => hitems p (by simp [hp])) (by omega))

/-! ### Paths -/

/-- The segments of a path behind its first one. -/
inductive Continues : List Token → List String → Prop
  | nil : Continues [] []
  | cons {l l' : Nat} {segment : String} {ts : List Token} {segments : List String}
      (h : Continues ts segments) :
      Continues (mark l "::" :: name l' segment :: ts) (segment :: segments)

theorem Continues.balanced {segments : List String} (h : Continues ts segments) : Balanced ts := by
  induction h with
  | nil => exact .nil
  | cons _ ih => exact .inner (isInner_mark rfl rfl) (.inner isInner_name ih)

/-- No token, or the mark between segments. -/
def Joint (ts : List Token) : Prop := ts = [] ∨ ∃ l, ts = [mark l "::"]

theorem Joint.balanced (h : Joint ts) : Balanced ts := by
  obtain rfl | ⟨l, rfl⟩ := h
  · exact .nil
  · exact .singleton (isInner_mark rfl rfl)

/-- The arguments of a path: nothing at all, or a list between angle brackets. -/
inductive Arguments : List (List Token × Reference) → List Token → Prop
  | none : Arguments [] []
  | listed {l l' : Nat} {joint ts : List Token} {items : List (List Token × Reference)}
      {trailing : Bool} (hjoint : Joint joint) (h : Listed items trailing ts) :
      Arguments items (joint ++ mark l "<" :: (ts ++ [mark l' ">"]))

theorem Arguments.balanced (h : Arguments items ts) (hitems : ∀ p ∈ items, Balanced p.1) :
    Balanced ts := by
  cases h with
  | none => exact .nil
  | @listed l l' joint ts _ _ hjoint h =>
      have hclose : Balanced [mark l' ">"] := .singleton (isInner_mark rfl rfl)
      exact hjoint.balanced.append
        (.inner (isInner_mark rfl rfl) ((h.balanced hitems).append hclose))

theorem readPath_last {segment : String} {done : List String} (hrest : Follows rest) :
    readPath (fuel + 1) done (name l segment :: rest) =
      .ok { segments := done ++ [segment] } rest := by
  rw [readPath]
  simp [hrest.any_head]

theorem readPath_arguments {segment : String} {done : List String} {joint : List Token}
    (hjoint : Joint joint) (hrest : Follows rest) (hargs : readArguments fuel ts = .ok args rest) :
    readPath (fuel + 1) done (name l segment :: (joint ++ mark l' "<" :: ts)) =
      .ok { segments := done ++ [segment], args } rest := by
  rw [readPath]
  obtain rfl | ⟨k, rfl⟩ := hjoint
  · simp [hargs, hrest.any_head]
  · simp [hargs, hrest.any_head]

theorem readPath_cons {k : Nat} {segment next : String} {done : List String} :
    readPath (fuel + 1) done (name l segment :: mark k "::" :: name l' next :: rest) =
      readPath fuel (done ++ [segment]) (name l' next :: rest) := by
  rw [readPath]
  simp [segmentText]

/-- A path is read from behind the segments that have been read. -/
theorem readPath_spelled {first : String} {done segments : List String} {more as : List Token}
    (hmore : Continues more segments) (hargs : Arguments items as)
    (hitems : ∀ p ∈ items, Reads p.1 p.2) (hrest : Follows rest)
    (hfuel : 3 * (more.length + as.length) + 2 ≤ fuel) :
    readPath fuel done (name l first :: (more ++ (as ++ rest))) =
      .ok { segments := done ++ first :: segments, args := items.map Prod.snd } rest := by
  induction hmore generalizing fuel l first done with
  | nil =>
      obtain ⟨fuel, rfl⟩ : ∃ n, fuel = n + 1 := ⟨fuel - 1, by omega⟩
      cases hargs with
      | none => exact readPath_last hrest
      | listed hjoint h =>
          simp only [List.length_append, List.length_cons, List.length_nil] at hfuel
          simp only [List.nil_append, List.append_assoc, List.cons_append]
          exact readPath_arguments hjoint hrest (readArguments_listed h hitems (by omega))
  | @cons k l' segment ts segments _ ih =>
      rw [List.length_cons, List.length_cons] at hfuel
      obtain ⟨fuel, rfl⟩ : ∃ n, fuel = n + 1 := ⟨fuel - 1, by omega⟩
      rw [List.cons_append, List.cons_append, readPath_cons, ih (by omega), List.append_assoc,
        List.singleton_append]

theorem readType_name {segment : String} (h : segment ∉ reservedStarts) :
    readType (fuel + 1) (name l segment :: rest) =
      readPath fuel [] (name l segment :: rest) := by
  have hstart : segment ≠ "_" ∧ segment ∉ verbatimStarts := by
    simp only [reservedStarts, verbatimStarts, List.mem_cons, not_or] at h ⊢
    exact ⟨h.1, h.2.2⟩
  rw [readType]
  simp [hstart]

/-- A path may have a mark in front of it. -/
theorem readType_joint {joint : List Token} {segment : String} (hjoint : Joint joint)
    (h : segment ∉ reservedStarts) :
    readType (fuel + 1) (joint ++ name l segment :: rest) =
      readPath fuel [] (name l segment :: rest) := by
  obtain rfl | ⟨k, rfl⟩ := hjoint
  · exact readType_name h
  · rw [readType]
    simp

/-! ### The other forms -/

theorem readLifetime_tokens {lifetime : String} (hrest : ∀ t ∈ rest.head?, t.kind ≠ .lifetime) :
    readLifetime (lifetimeTokens l lifetime ++ rest) = .ok lifetime rest := by
  unfold readLifetime lifetimeTokens
  by_cases hempty : lifetime = ""
  · rw [if_pos hempty, hempty]
    cases rest with
    | nil => rfl
    | cons t rest => simp [hrest t (by simp)]
  · rw [if_neg hempty]
    simp

theorem readType_shared {lifetime : String} (hlifetime : ∀ t ∈ ts.head?, t.kind ≠ .lifetime)
    (hmut : ts.head?.any (·.isIdent "mut") = false) (hinner : readType fuel ts = .ok inner rest) :
    readType (fuel + 1) (mark l "&" :: (lifetimeTokens l' lifetime ++ ts)) =
      .ok { modifier := .shared, args := [inner], lifetime } rest := by
  rw [readType]
  simp [readLifetime_tokens hlifetime, hmut, hinner]

theorem readType_exclusive {k : Nat} {lifetime : String}
    (hinner : readType fuel ts = .ok inner rest) :
    readType (fuel + 1)
        (mark l "&" :: (lifetimeTokens l' lifetime ++ name k "mut" :: ts)) =
      .ok { modifier := .exclusive, args := [inner], lifetime } rest := by
  have hlifetime : readLifetime (lifetimeTokens l' lifetime ++ name k "mut" :: ts) =
      .ok lifetime (name k "mut" :: ts) := readLifetime_tokens (by simp)
  rw [readType]
  simp [hlifetime, hinner]

/-- The word behind the star of a pointer. -/
def starWord (exclusive : Bool) : String := if exclusive then "mut" else "const"

theorem readType_star {exclusive : Bool} (hinner : readType fuel ts = .ok inner rest) :
    readType (fuel + 1) (mark l "*" :: name l' (starWord exclusive) :: ts) =
      .ok { modifier := star exclusive, args := [inner] } rest := by
  rw [readType]
  cases exclusive with
  | false => simp [hinner, star, starWord]
  | true => simp [hinner, star, starWord]

theorem readType_tuple (hts : Balanced ts)
    (hargs : readElements fuel ts = .ok (args, trailing) [])
    (htrailing : args.length = 1 → trailing = true) :
    readType (fuel + 1) (mark l "(" :: (ts ++ mark l' ")" :: rest)) =
      .ok { modifier := .tuple, args } rest := by
  have hgroup : group (mark l "(" :: (ts ++ mark l' ")" :: rest)) =
      .ok (mark l "(" :: (ts ++ [mark l' ")"])) rest := group_balanced rfl rfl hts
  rw [readType]
  simp [hgroup, within_ok hargs]
  split
  · exact absurd (htrailing rfl) (by simp)
  · rfl

theorem readType_slice (hts : Balanced ts) (hinner : readType fuel ts = .ok inner []) :
    readType (fuel + 1) (mark l "[" :: (ts ++ mark l' "]" :: rest)) =
      .ok { modifier := .slice, args := [inner] } rest := by
  have hgroup : group (mark l "[" :: (ts ++ mark l' "]" :: rest)) =
      .ok (mark l "[" :: (ts ++ [mark l' "]"])) rest := group_balanced rfl rfl hts
  rw [readType]
  simp [hgroup, within, hinner]

theorem readType_array {k : Nat} (hts : Balanced ts)
    (hinner : readType fuel ts = .ok inner (mark k ";" :: us)) (hlength : join us ≠ "") :
    readType (fuel + 1) (mark l "[" :: (ts ++ mark l' "]" :: rest)) =
      .ok { modifier := .array, args := [inner], length := join us } rest := by
  have hgroup : group (mark l "[" :: (ts ++ mark l' "]" :: rest)) =
      .ok (mark l "[" :: (ts ++ [mark l' "]"])) rest := group_balanced rfl rfl hts
  rw [readType]
  simp [hgroup, within, hinner, hlength]

namespace Reads

variable {lifetime : String}

/-! ### One form at a time -/

theorem path {root more as : List Token} {first : String} {segments : List String}
    (hroot : Joint root) (hstart : first ∉ reservedStarts) (hmore : Continues more segments)
    (hargs : Arguments items as) (hitems : ∀ p ∈ items, Reads p.1 p.2) :
    Reads (root ++ name l first :: (more ++ as))
      { segments := first :: segments, args := items.map Prod.snd } where
  leads := by
    intro rest hrest
    obtain rfl | ⟨k, rfl⟩ := hroot
    · refine leads_name hstart ?_
      cases hmore with
      | cons _ => simp
      | nil =>
          cases hargs with
          | none =>
              intro u hu
              exact ⟨hrest u hu _ (by simp), hrest u hu _ (by simp)⟩
          | listed hjoint _ =>
              obtain rfl | ⟨k, rfl⟩ := hjoint
              · simp
              · simp
    · exact leads_mark (by simp)
  balanced := hroot.balanced.append (.inner isInner_name
    (hmore.balanced.append (hargs.balanced fun p hp => (hitems p hp).balanced)))
  read := by
    intro fuel rest hrest hfuel
    simp only [List.length_append, List.length_cons] at hfuel
    obtain ⟨fuel, rfl⟩ : ∃ n, fuel = n + 1 := ⟨fuel - 1, by omega⟩
    rw [List.append_assoc, List.cons_append, List.append_assoc, readType_joint hroot hstart,
      readPath_spelled hmore hargs hitems hrest (by omega), List.nil_append]

theorem shared (h : Reads ts inner) :
    Reads (mark l "&" :: (lifetimeTokens l' lifetime ++ ts))
      { modifier := .shared, args := [inner], lifetime } where
  leads _ _ := leads_mark (by simp)
  balanced := .inner (isInner_mark rfl rfl) (balanced_lifetimeTokens.append h.balanced)
  read := by
    intro fuel rest hrest hfuel
    rw [List.length_cons, List.length_append] at hfuel
    obtain ⟨fuel, rfl⟩ : ∃ n, fuel = n + 1 := ⟨fuel - 1, by omega⟩
    rw [List.cons_append, List.append_assoc]
    obtain ⟨t, us, hts, hbegins, -⟩ := h.leads rest hrest
    exact readType_shared (by simp [hts, hbegins.kind_ne]) (by simp [hts, hbegins.isIdent_mut])
      (h.read fuel rest hrest (by omega))

theorem exclusive {k : Nat} (h : Reads ts inner) :
    Reads (mark l "&" :: (lifetimeTokens l' lifetime ++ name k "mut" :: ts))
      { modifier := .exclusive, args := [inner], lifetime } where
  leads _ _ := leads_mark (by simp)
  balanced := .inner (isInner_mark rfl rfl)
    (balanced_lifetimeTokens.append (.inner isInner_name h.balanced))
  read := by
    intro fuel rest hrest hfuel
    rw [List.length_cons, List.length_append, List.length_cons] at hfuel
    obtain ⟨fuel, rfl⟩ : ∃ n, fuel = n + 1 := ⟨fuel - 1, by omega⟩
    rw [List.cons_append, List.append_assoc]
    exact readType_exclusive (h.read fuel rest hrest (by omega))

theorem star {exclusive : Bool} (h : Reads ts inner) :
    Reads (mark l "*" :: name l' (starWord exclusive) :: ts)
      { modifier := Reference.star exclusive, args := [inner] } where
  leads _ _ := leads_mark (by simp)
  balanced := .inner (isInner_mark rfl rfl) (.inner isInner_name h.balanced)
  read := by
    intro fuel rest hrest hfuel
    rw [List.length_cons, List.length_cons] at hfuel
    obtain ⟨fuel, rfl⟩ : ∃ n, fuel = n + 1 := ⟨fuel - 1, by omega⟩
    exact readType_star (h.read fuel rest hrest (by omega))

theorem tuple (h : Listed items trailing ts) (hone : items.length = 1 → trailing = true)
    (hitems : ∀ p ∈ items, Reads p.1 p.2) :
    Reads (mark l "(" :: (ts ++ [mark l' ")"]))
      { modifier := .tuple, args := items.map Prod.snd } where
  leads _ _ := leads_mark (by simp)
  balanced := .bracketed rfl rfl (h.balanced fun p hp => (hitems p hp).balanced)
  read := by
    intro fuel rest hrest hfuel
    rw [List.length_cons, List.length_append, List.length_singleton] at hfuel
    obtain ⟨fuel, rfl⟩ : ∃ n, fuel = n + 1 := ⟨fuel - 1, by omega⟩
    rw [List.cons_append, List.append_assoc]
    exact readType_tuple (h.balanced fun p hp => (hitems p hp).balanced)
      (readElements_listed h hitems (by omega)) (by rwa [List.length_map])

theorem slice (h : Reads ts inner) :
    Reads (mark l "[" :: (ts ++ [mark l' "]"])) { modifier := .slice, args := [inner] } where
  leads _ _ := leads_mark (by simp)
  balanced := .bracketed rfl rfl h.balanced
  read := by
    intro fuel rest hrest hfuel
    rw [List.length_cons, List.length_append] at hfuel
    obtain ⟨fuel, rfl⟩ : ∃ n, fuel = n + 1 := ⟨fuel - 1, by omega⟩
    have hread := h.read fuel [] follows_nil (by omega)
    rw [List.append_nil] at hread
    rw [List.cons_append, List.append_assoc]
    exact readType_slice h.balanced hread

theorem array {k : Nat} (ht : t.IsInner) (hlength : t.text ≠ "") (h : Reads ts inner) :
    Reads (mark l "[" :: (ts ++ [mark k ";", t] ++ [mark l' "]"]))
      { modifier := .array, args := [inner], length := t.text } where
  leads _ _ := leads_mark (by simp)
  balanced := .bracketed rfl rfl
    (h.balanced.append (.inner (isInner_mark rfl rfl) (.singleton ht)))
  read := by
    intro fuel rest hrest hfuel
    rw [List.length_cons, List.length_append, List.length_append] at hfuel
    obtain ⟨fuel, rfl⟩ : ∃ n, fuel = n + 1 := ⟨fuel - 1, by omega⟩
    have hread := h.read fuel [mark k ";", t] (follows_cons.mpr (by simp)) (by omega)
    rw [List.cons_append, List.append_assoc]
    exact readType_array
      (h.balanced.append (.inner (isInner_mark rfl rfl) (.singleton ht))) hread hlength

end Reads

/-! ### References that are spelled out -/

/-- The tokens spell the reference: a path of names with or without arguments, a reference, a
pointer, a tuple, a slice, or an array whose length is one token. -/
inductive Spells : List Token → Reference → Prop
  | path {l : Nat} {root more as : List Token} {first : String} {segments : List String}
      {items : List (List Token × Reference)} (hroot : Joint root)
      (hstart : first ∉ reservedStarts) (hmore : Continues more segments)
      (hargs : Arguments items as) (hitems : ∀ p ∈ items, Spells p.1 p.2) :
      Spells (root ++ name l first :: (more ++ as))
        { segments := first :: segments, args := items.map Prod.snd }
  | shared {l l' : Nat} {lifetime : String} {ts : List Token} {inner : Reference}
      (h : Spells ts inner) :
      Spells (mark l "&" :: (lifetimeTokens l' lifetime ++ ts))
        { modifier := .shared, args := [inner], lifetime }
  | exclusive {l l' k : Nat} {lifetime : String} {ts : List Token} {inner : Reference}
      (h : Spells ts inner) :
      Spells (mark l "&" :: (lifetimeTokens l' lifetime ++ name k "mut" :: ts))
        { modifier := .exclusive, args := [inner], lifetime }
  | star {l l' : Nat} (exclusive : Bool) {ts : List Token} {inner : Reference}
      (h : Spells ts inner) :
      Spells (mark l "*" :: name l' (starWord exclusive) :: ts)
        { modifier := star exclusive, args := [inner] }
  | tuple {l l' : Nat} {ts : List Token} {items : List (List Token × Reference)} {trailing : Bool}
      (h : Listed items trailing ts) (hone : items.length = 1 → trailing = true)
      (hitems : ∀ p ∈ items, Spells p.1 p.2) :
      Spells (mark l "(" :: (ts ++ [mark l' ")"]))
        { modifier := .tuple, args := items.map Prod.snd }
  | slice {l l' : Nat} {ts : List Token} {inner : Reference} (h : Spells ts inner) :
      Spells (mark l "[" :: (ts ++ [mark l' "]"])) { modifier := .slice, args := [inner] }
  | array {l l' k : Nat} {t : Token} {ts : List Token} {inner : Reference} (ht : t.IsInner)
      (hlength : t.text ≠ "") (h : Spells ts inner) :
      Spells (mark l "[" :: (ts ++ [mark k ";", t] ++ [mark l' "]"]))
        { modifier := .array, args := [inner], length := t.text }

/-- **What is spelled out is read.** -/
theorem Spells.reads (h : Spells ts r) : Reads ts r := by
  induction h with
  | path hroot hstart hmore hargs _ ih => exact .path hroot hstart hmore hargs ih
  | shared _ ih => exact .shared ih
  | exclusive _ ih => exact .exclusive ih
  | star exclusive _ ih => exact .star ih
  | tuple h hone _ ih => exact .tuple h hone ih
  | slice _ ih => exact .slice ih
  | array ht hlength _ ih => exact .array ht hlength ih

/-- The tokens spell the references of a list, with commas between them; the flag tells whether a
comma is the last token, or there is no reference at all. -/
def SpellsAll (ts : List Token) (args : List Reference) (trailing : Bool) : Prop :=
  ∃ items, Listed items trailing ts ∧ items.map Prod.snd = args ∧ ∀ p ∈ items, Spells p.1 p.2

namespace SpellsAll

theorem nil : SpellsAll [] [] true := ⟨[], .nil, rfl, by simp⟩

theorem last (h : Spells ts r) : SpellsAll ts [r] false :=
  ⟨[(ts, r)], .last, rfl, by simpa using h⟩

theorem cons (h : Spells ts r) (h' : SpellsAll us args trailing) :
    SpellsAll (ts ++ mark l "," :: us) (r :: args) trailing := by
  obtain ⟨items, hlisted, rfl, hitems⟩ := h'
  exact ⟨(ts, r) :: items, .cons hlisted, rfl, List.forall_mem_cons.mpr ⟨h, hitems⟩⟩

theorem tuple (h : SpellsAll ts args trailing) (hone : args.length = 1 → trailing = true) :
    Spells (mark l "(" :: (ts ++ [mark l' ")"])) { modifier := .tuple, args } := by
  obtain ⟨items, hlisted, rfl, hitems⟩ := h
  rw [List.length_map] at hone
  exact .tuple hlisted hone hitems

theorem path {k : Nat} {root more : List Token} {first : String} {segments : List String}
    (hroot : Joint root) (hstart : first ∉ reservedStarts) (hmore : Continues more segments)
    (h : SpellsAll ts args trailing) :
    Spells (root ++ name k first :: (more ++ mark l "<" :: (ts ++ [mark l' ">"])))
      { segments := first :: segments, args } := by
  obtain ⟨items, hlisted, rfl, hitems⟩ := h
  exact .path hroot hstart hmore (.listed (.inl rfl) hlisted) hitems

end SpellsAll

/-- A path without arguments. -/
theorem Spells.bare {root more : List Token} {first : String} {segments : List String}
    (hroot : Joint root) (hstart : first ∉ reservedStarts) (hmore : Continues more segments) :
    Spells (root ++ name l first :: more) { segments := first :: segments } := by
  have hpath := @Spells.path l root more [] first segments [] hroot hstart hmore .none (by simp)
  rwa [List.append_nil] at hpath

namespace Reads

/-- A reader without a bound reads them too. -/
theorem reader (h : Reads ts r) (hrest : Follows rest) : reader (ts ++ rest) = .ok r rest := by
  refine h.read _ rest hrest ?_
  rw [List.length_append]
  omega

/-- A text with these tokens is parsed as the reference. -/
theorem parse_eq {text : String} (h : Reads ts r) (hlex : Piece.lexFrom 1 text.toList = .ok ts) :
    parse text = .ok r := by
  have hhash : ∀ t ∈ ts.head?, t.isPunct "#" = false := by
    intro t ht
    obtain ⟨u, us, rfl, hbegins, -⟩ : Leads ts := List.append_nil ts ▸ h.leads [] follows_nil
    obtain rfl : u = t := by simpa using ht
    exact hbegins.isPunct (by simp)
  have hread := h.reader follows_nil
  rw [List.append_nil] at hread
  rw [parse, h.balanced.tokenize_eq (lex_of_lexFrom hlex hhash)]
  simp only
  rw [ofTokens, hread]

end Reads

end Reference

end ConversionClosure
