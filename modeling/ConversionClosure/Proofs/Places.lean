/-
Readers that go by places.

A reader of tokens takes them from the front of a list.  It can also be told by places: all tokens
of a text stand in one stream, together with the places of its groups, and a cursor has the place of
the next token and the place where its stretch ends.  Inside of a group another cursor goes over the
same stream.  Such a reader can stray: it may ask for a token where there is none, look for a group
where none begins, or move behind the end of its stretch.  Each of these is a fault of its own here,
so that a run without it has done none of them.

`At` says which tokens a cursor has before it.  The cursor is within its stretch then, and every
group that begins there ends there, so that no step strays.  Each step does at the cursor what the
step of a reader of a list does with those tokens.
-/
import ConversionClosure.Proofs.Matching
import ConversionClosure.Proofs.Recovery

namespace ConversionClosure

open Token

/-- All tokens of a text, and the places of its groups. -/
structure TokenStream where
  tokens : List Token
  groups : List (Nat × Nat)

/-- The tokens from one place of the stream up to another. -/
def TokenStream.between (s : TokenStream) (first last : Nat) : List Token :=
  (s.tokens.take last).drop first

/-- The place of the next token, and the place where the stretch ends. -/
structure Cursor where
  place : Nat
  stop : Nat

/-- The cursor of the same stretch that has only these tokens left. -/
def Cursor.leaving (c : Cursor) (ts : List Token) : Cursor := ⟨c.stop - ts.length, c.stop⟩

@[simp] theorem Cursor.leaving_leaving (c : Cursor) (ts us : List Token) :
    (c.leaving ts).leaving us = c.leaving us := rfl

/-- What a cursor does not allow. -/
inductive Stray
  | noToken (place : Nat)
  | noGroup (place : Nat)
  | behindStop (place : Nat)

/-- Why a reader by places fails: the tokens are no type, or it has strayed. -/
inductive PlaceFault
  | type (fault : TypeFault)
  | stray (stray : Stray)

/-- Moves a cursor over a stream. -/
abbrev PlaceReader := ReaderT TokenStream (EStateM PlaceFault Cursor)

namespace PlaceReader

variable {α : Type}

/-- Fails since the tokens are no type. -/
def fail (fault : TypeFault) : PlaceReader α := throw (.type fault)

/-- The token at a place of the stream. -/
def token (place : Nat) : PlaceReader Token := do
  match (← read).tokens[place]? with
  | some t => return t
  | none => throw (.stray (.noToken place))

/-- The token `offset` places on, if the stretch has one there. -/
def peek? (offset : Nat) : PlaceReader (Option Token) := do
  let c ← get
  if c.place + offset < c.stop then return some (← token (c.place + offset)) else return none

/-- The token in front of the cursor. -/
def previous : PlaceReader Token := do
  let c ← get
  if c.place = 0 then throw (.stray (.noToken 0)) else token (c.place - 1)

/-- Moves the cursor to a place. -/
def moveTo (place : Nat) : PlaceReader Unit := do
  let c ← get
  if place ≤ c.stop then set { c with place } else throw (.stray (.behindStop place))

/-- Moves the cursor on. -/
def advance (count : Nat) : PlaceReader Unit := do moveTo ((← get).place + count)

/-- The tokens from one place up to another, which are places of the stream. -/
def slice (first last : Nat) : PlaceReader (List Token) := do
  let s ← read
  if last ≤ s.tokens.length then return s.between first last
  else throw (.stray (.noToken last))

/-- No token is left in the stretch. -/
def atEnd : PlaceReader Bool := do
  let c ← get
  return c.stop ≤ c.place

/-- The tokens that are left in the stretch. -/
def rest : PlaceReader (List Token) := do
  let c ← get
  slice c.place c.stop

/-- Takes one token. -/
def next : PlaceReader Token := do
  match ← peek? 0 with
  | none => fail .endOfTokens
  | some t =>
    advance 1
    return t

/-- Passes over one token. -/
def skip : PlaceReader Unit := do let _ ← next

/-- The token `offset` places on is the punctuation `text`. -/
def atPunct (text : String) (offset : Nat) : PlaceReader Bool :=
  return (← peek? offset).any (·.isPunct text)

/-- The next token is the name `text`. -/
def atIdent (text : String) : PlaceReader Bool := return (← peek? 0).any (·.isIdent text)

/-- Takes the punctuation `text`, which has to come next. -/
def expect (text : String) : PlaceReader Unit := do
  let t ← next
  unless t.isPunct text do fail (.unexpected text t.text t.line)

/-- The place of the token that closes the group at the cursor.  The groups are asked for places of
opening brackets only. -/
def closer : PlaceReader Nat := do
  let c ← get
  let t ← token c.place
  match t.isOpener, (← read).groups.lookup c.place with
  | true, some close => return close
  | _, _ => throw (.stray (.noGroup c.place))

/-- Takes the group at the cursor. -/
def group : PlaceReader (List Token) := do
  let c ← get
  let close ← closer
  moveTo (close + 1)
  slice c.place (close + 1)

/-- Runs a reader with a cursor of its own. -/
def inside (inner : Cursor) (reader : PlaceReader α) : PlaceReader α := fun s outer =>
  match reader s inner with
  | .ok a _ => .ok a outer
  | .error fault _ => .error fault outer

/-- Moves behind the group at the cursor, and runs a reader on the tokens inside. -/
def within (reader : PlaceReader α) : PlaceReader α := do
  let c ← get
  let close ← closer
  moveTo (close + 1)
  inside ⟨c.place + 1, close⟩ reader

/-- Goes on to the `>` that ends a run from `first` on, where `depth` angle brackets are open;
`fuel` bounds the number of steps. -/
def anglesFrom (first : Nat) : (fuel : Nat) → (depth : Int) → PlaceReader (List Token)
  | 0, _ => fail .outOfFuel
  | fuel + 1, depth => do
    match ← peek? 0 with
    | none => fail .openAngle
    | some t =>
      if t.isOpener then
        let _ ← group
        anglesFrom first fuel depth
      else
        advance 1
        if t.isPunct "<" then anglesFrom first fuel (depth + 1)
        else if t.isPunct ">" then
          if depth = 1 then slice first (← get).place else anglesFrom first fuel (depth - 1)
        else anglesFrom first fuel depth

/-- Takes a run between angle brackets; without an end it takes everything and fails. -/
def angles : PlaceReader (List Token) := do
  let c ← get
  anglesFrom c.place (c.stop - c.place + 1) 0

/-- Goes on to the mark that ends a type, where `depth` angle brackets are open; `fuel` bounds the
number of steps. -/
def untilEndFrom : (fuel : Nat) → (depth : Nat) → PlaceReader Unit
  | 0, _ => fail .outOfFuel
  | fuel + 1, depth => do
    match ← peek? 0 with
    | none => return
    | some t =>
      if depth = 0 ∧ Run.endsType t then return
      else if t.isOpener then
        let _ ← group
        untilEndFrom fuel depth
      else
        advance 1
        untilEndFrom fuel
          (if t.isPunct "<" then depth + 1 else if t.isPunct ">" then depth - 1 else depth)

/-- Takes the tokens before the mark that ends a type; there has to be one at least. -/
def untilEnd : PlaceReader (List Token) := do
  let c ← get
  untilEndFrom (c.stop - c.place + 1) 0
  let c' ← get
  if c'.place = c.place then fail .noType
  slice c.place c'.place

/-- Passes over the rest of an item; `fuel` bounds the number of steps. -/
def skipItemFrom : (fuel : Nat) → PlaceReader Unit
  | 0 => fail .outOfFuel
  | fuel + 1 => do
    match ← peek? 0 with
    | none => return
    | some t =>
      if t.isOpener then
        let _ ← group
        unless t.opens? == some .curly do skipItemFrom fuel
      else
        skip
        unless t.isPunct ";" do skipItemFrom fuel

/-- Passes over the rest of an item. -/
def skipItem : PlaceReader Unit := do
  let c ← get
  skipItemFrom (c.stop - c.place + 1)

end PlaceReader

/-! ### Cursors -/

variable {α β : Type} {s : TokenStream} {c : Cursor} {ts us front : List Token} {t : Token}
  {i : Nat}

/-- The cursor has these tokens before it.  It is within its stretch, the stretch is one of the
stream, and every group that begins there ends there. -/
structure At (s : TokenStream) (c : Cursor) (ts : List Token) : Prop where
  matching : Matches s.tokens s.groups
  place_le : c.place ≤ c.stop
  stop_le : c.stop ≤ s.tokens.length
  between_eq : s.between c.place c.stop = ts
  matched : Matched ts

namespace At

theorem stop_eq (h : At s c ts) : c.stop = c.place + ts.length := by
  have hlength := congrArg List.length h.between_eq
  rw [TokenStream.between, List.length_drop, List.length_take, Nat.min_eq_left h.stop_le] at hlength
  have hle := h.place_le
  omega

theorem getElem?_eq (h : At s c ts) (hi : i < ts.length) : s.tokens[c.place + i]? = ts[i]? := by
  have hstop := h.stop_eq
  rw [← h.between_eq, TokenStream.between, List.getElem?_drop, List.getElem?_take_of_lt (by omega)]

theorem eq_leaving (h : At s c ts) : c = c.leaving ts := by
  have hplace : c.place = c.stop - ts.length := by
    rw [h.stop_eq, Nat.add_sub_cancel]
  rw [Cursor.leaving, ← hplace]

/-- A cursor may have only the last ones of its tokens left. -/
theorem leave (h : At s c ts) (hus : us <:+ ts) : At s (c.leaving us) us := by
  obtain ⟨front, rfl⟩ := hus
  have hstop := h.stop_eq
  rw [List.length_append] at hstop
  have hplace : c.stop - us.length = c.place + front.length := by omega
  refine ⟨h.matching, Nat.sub_le _ _, h.stop_le, ?_, h.matched.of_suffix ⟨front, rfl⟩⟩
  have hbetween := h.between_eq
  rw [TokenStream.between] at hbetween
  rw [Cursor.leaving, TokenStream.between, hplace, ← List.drop_drop, hbetween, List.drop_left]

theorem tail (h : At s c (t :: ts)) : At s (c.leaving ts) ts := h.leave (List.suffix_cons t ts)

/-- The tokens that are passed over stand between the two places. -/
theorem between_leaving (h : At s c (front ++ ts)) :
    s.between c.place (c.leaving ts).place = front := by
  have hstop := h.stop_eq
  rw [List.length_append] at hstop
  have hplace : c.stop - ts.length = c.place + front.length := by omega
  have hbetween := h.between_eq
  rw [TokenStream.between] at hbetween
  have htake := congrArg (List.take front.length) hbetween
  rw [List.take_left, List.take_drop, List.take_take, Nat.min_eq_left (by omega)] at htake
  rw [Cursor.leaving, TokenStream.between, hplace, htake]

/-- The last stretch of a stream ends it. -/
theorem suffix (h : At s c ts) (hstop : c.stop = s.tokens.length) : ts <:+ s.tokens := by
  rw [← h.between_eq, TokenStream.between, hstop, List.take_length]
  exact List.drop_suffix _ _

/-- The stream has the tokens of the stretch between those in front of it and those behind it. -/
theorem tokens_eq (h : At s c ts) :
    s.tokens = s.tokens.take c.place ++ (ts ++ s.tokens.drop c.stop) := by
  have hlength : c.place ≤ (s.tokens.take c.stop).length := by
    rw [List.length_take, Nat.min_eq_left h.stop_le]
    exact h.place_le
  have hdrop : s.tokens.drop c.place = ts ++ s.tokens.drop c.stop := by
    rw [← h.between_eq, TokenStream.between, ← List.drop_append_of_le_length hlength,
      List.take_append_drop]
  rw [← hdrop, List.take_append_drop]

/-- An opening bracket before the cursor begins a group, and the cursor may go on behind it. -/
theorem exists_group (h : At s c (t :: ts)) (ht : t.isOpener = true) :
    ∃ k inner close us, ts = inner ++ close :: us ∧ t.opens? = some k ∧ close.closes? = some k ∧
      Balanced inner ∧ At s (c.leaving us) us ∧ us.length < ts.length := by
  obtain ⟨k, inner, close, us, ho, hc, hinner, rfl, -⟩ := h.matched.exists_group ht
  have hus : us <:+ t :: (inner ++ close :: us) := ⟨t :: (inner ++ [close]), by simp⟩
  refine ⟨k, inner, close, us, rfl, ho, hc, hinner, h.leave hus, ?_⟩
  rw [List.length_append, List.length_cons]
  omega

variable {k : Bracket} {inner : List Token} {close : Token}

/-- A group of the stretch is one of the stream. -/
theorem lookup_eq (h : At s c (t :: (inner ++ close :: us))) (ho : t.opens? = some k)
    (hc : close.closes? = some k) (hinner : Balanced inner) :
    s.groups.lookup c.place = some (c.place + 1 + inner.length) := by
  have hplace : c.place = (s.tokens.take c.place).length := by
    have hle := h.place_le
    have hstop := h.stop_le
    rw [List.length_take]
    omega
  refine h.matching.lookup_eq ⟨_, t, inner, close, us ++ s.tokens.drop c.stop, k, ?_, hplace, rfl,
    ho, hc, hinner⟩
  have htokens := h.tokens_eq
  simpa using htokens

/-- The closing bracket is one of the stretch. -/
theorem place_leaving (h : At s c (t :: (inner ++ close :: us))) :
    (c.leaving us).place = c.place + 1 + inner.length + 1 := by
  have hstop := h.stop_eq
  simp only [List.length_cons, List.length_append] at hstop
  simp only [Cursor.leaving]
  omega

/-- Inside of a group a cursor of its own has the tokens between the brackets. -/
theorem inside (h : At s c (t :: (inner ++ close :: us))) (hinner : Balanced inner) :
    At s ⟨c.place + 1, c.place + 1 + inner.length⟩ inner := by
  have hstop := h.stop_eq
  have hlast := h.stop_le
  simp only [List.length_cons, List.length_append] at hstop
  have hfirst : (c.leaving (inner ++ close :: us)).place = c.place + 1 := by
    simp only [Cursor.leaving, List.length_append, List.length_cons]
    omega
  have hsecond : ((c.leaving (inner ++ close :: us)).leaving (close :: us)).place =
      c.place + 1 + inner.length := by
    simp only [Cursor.leaving, List.length_cons]
    omega
  have hbetween := h.tail.between_leaving
  rw [hfirst, hsecond] at hbetween
  exact ⟨h.matching, Nat.le_add_right _ _, by simp only; omega, hbetween, hinner.matched⟩

end At

/-! ### Single steps -/

namespace PlaceReader

@[simp] theorem pure_apply (a : α) (s : TokenStream) (c : Cursor) :
    (pure a : PlaceReader α) s c = .ok a c := rfl

@[simp] theorem bind_apply (x : PlaceReader α) (f : α → PlaceReader β) (s : TokenStream)
    (c : Cursor) : (x >>= f) s c =
      match x s c with
      | .ok a c' => f a s c'
      | .error fault c' => .error fault c' := by
  show EStateM.bind (x s) (fun a => f a s) c = _
  unfold EStateM.bind
  cases x s c with
  | ok a c' => rfl
  | error fault c' => rfl

@[simp] theorem get_apply (s : TokenStream) (c : Cursor) :
    (get : PlaceReader Cursor) s c = .ok c c := rfl

@[simp] theorem read_apply (s : TokenStream) (c : Cursor) :
    (read : PlaceReader TokenStream) s c = .ok s c := rfl

@[simp] theorem branch_apply {p : Prop} [Decidable p] (x y : PlaceReader α) (s : TokenStream)
    (c : Cursor) : (if p then x else y) s c = if p then x s c else y s c := by
  split <;> rfl

theorem fail_apply (fault : TypeFault) (s : TokenStream) (c : Cursor) :
    (fail fault : PlaceReader α) s c = .error (.type fault) c := rfl

theorem peek?_apply (h : At s c ts) (offset : Nat) : peek? offset s c = .ok ts[offset]? c := by
  have hstop := h.stop_eq
  simp only [peek?, bind_apply, get_apply, branch_apply]
  split
  · have hlt : offset < ts.length := by omega
    have htoken := h.getElem?_eq hlt
    rw [List.getElem?_eq_getElem hlt] at htoken
    simp only [token, bind_apply, read_apply, htoken, List.getElem?_eq_getElem hlt]
    rfl
  · rw [List.getElem?_eq_none (by omega)]
    rfl

theorem moveTo_leaving (s : TokenStream) (c : Cursor) (ts : List Token) :
    moveTo (c.leaving ts).place s c = .ok () (c.leaving ts) := by
  have hplace : (c.leaving ts).place ≤ c.stop := Nat.sub_le _ _
  simp only [moveTo, bind_apply, get_apply, branch_apply, if_pos hplace]
  rfl

theorem advance_drop {count : Nat} (h : At s c ts) (hcount : count ≤ ts.length) :
    advance count s c = .ok () (c.leaving (ts.drop count)) := by
  have hstop := h.stop_eq
  have hplace : (c.leaving (ts.drop count)).place = c.place + count := by
    simp only [Cursor.leaving, List.length_drop]
    omega
  simp only [advance, bind_apply, get_apply]
  rw [← hplace, moveTo_leaving]

theorem advance_apply (h : At s c (t :: ts)) : advance 1 s c = .ok () (c.leaving ts) :=
  advance_drop h (Nat.succ_pos _)

/-- Behind a token that is taken, it stands in front of the cursor. -/
theorem previous_apply (h : At s c (t :: ts)) :
    previous s (c.leaving ts) = .ok t (c.leaving ts) := by
  have hstop := h.stop_eq
  rw [List.length_cons] at hstop
  have hplace : (c.leaving ts).place = c.place + 1 := by
    simp only [Cursor.leaving]
    omega
  have htoken : s.tokens[c.place]? = some t := h.getElem?_eq (i := 0) (by simp)
  simp only [previous, bind_apply, get_apply, branch_apply, hplace, Nat.succ_ne_zero, if_false,
    Nat.add_sub_cancel, token, read_apply, htoken, pure_apply]

theorem next_apply (h : At s c (t :: ts)) : next s c = .ok t (c.leaving ts) := by
  simp only [next, bind_apply, peek?_apply h, List.getElem?_cons_zero, advance_apply h]
  rfl

theorem skip_apply (h : At s c (t :: ts)) : skip s c = .ok () (c.leaving ts) := by
  simp only [skip, bind_apply, next_apply h]
  rfl

theorem slice_apply {first last : Nat} (hlast : last ≤ s.tokens.length) :
    slice first last s c = .ok (s.between first last) c := by
  simp only [slice, bind_apply, read_apply, branch_apply, if_pos hlast]
  rfl

theorem rest_apply (h : At s c ts) : rest s c = .ok ts c := by
  simp only [rest, bind_apply, get_apply, slice_apply h.stop_le, h.between_eq]

theorem atEnd_apply (h : At s c ts) : atEnd s c = .ok ts.isEmpty c := by
  have hstop := h.stop_eq
  have hempty : decide (c.stop ≤ c.place) = ts.isEmpty := by
    cases ts with
    | nil => simp [hstop]
    | cons t ts => simp [hstop]
  simp only [atEnd, bind_apply, get_apply, hempty]
  rfl

variable {k : Bracket} {inner : List Token} {close : Token}

theorem closer_apply (h : At s c (t :: (inner ++ close :: us))) (ho : t.opens? = some k)
    (hc : close.closes? = some k) (hinner : Balanced inner) :
    closer s c = .ok (c.place + 1 + inner.length) c := by
  have htoken : s.tokens[c.place]? = some t := h.getElem?_eq (i := 0) (by simp)
  have hlookup := h.lookup_eq ho hc hinner
  simp only [closer, bind_apply, get_apply, token, read_apply, htoken, pure_apply,
    isOpener_of_opens? ho, hlookup]

theorem group_apply (h : At s c (t :: (inner ++ close :: us))) (ho : t.opens? = some k)
    (hc : close.closes? = some k) (hinner : Balanced inner) :
    group s c = .ok (t :: (inner ++ [close])) (c.leaving us) := by
  have hfront : t :: (inner ++ close :: us) = (t :: (inner ++ [close])) ++ us := by simp
  have hbetween := (hfront ▸ h).between_leaving
  have hlast : (c.leaving us).place ≤ s.tokens.length := Nat.le_trans (Nat.sub_le _ _) h.stop_le
  simp only [group, bind_apply, get_apply, closer_apply h ho hc hinner]
  rw [← h.place_leaving, moveTo_leaving]
  simp only [slice_apply hlast, hbetween]

theorem within_apply (h : At s c (t :: (inner ++ close :: us))) (ho : t.opens? = some k)
    (hc : close.closes? = some k) (hinner : Balanced inner) (x : PlaceReader α) :
    within x s c =
      inside ⟨c.place + 1, c.place + 1 + inner.length⟩ x s (c.leaving us) := by
  simp only [within, bind_apply, get_apply, closer_apply h ho hc hinner]
  rw [← h.place_leaving, moveTo_leaving]

/-! ### Loops -/

/-- A group between angle brackets is passed over whole. -/
theorem angles?_group (ho : t.opens? = some k) (hc : close.closes? = some k)
    (hinner : Balanced inner) (angles : Nat) (us : List Token) :
    Run.angles? 0 angles (t :: (inner ++ close :: us)) =
      (Run.angles? 0 angles us).map (Balanced.ahead (t :: (inner ++ [close]))) := by
  rw [Run.angles?, if_pos (isOpener_of_opens? ho), hinner.angles?_append, Run.angles?,
    isOpener_of_closes? hc, isCloser_of_closes? hc]
  simp only [Bool.false_eq_true, if_false, Nat.zero_lt_succ, if_true, Nat.add_sub_cancel]
  cases Run.angles? 0 angles us with
  | none => rfl
  | some split => simp [Balanced.ahead, Run.onto]

/-- The end of a run between angle brackets is the one of the list function. -/
theorem anglesFrom_apply (first : Nat) {fuel depth : Nat} (h : At s c ts) (hfuel : ts.length < fuel)
    (hdepth : 0 < depth) : anglesFrom first fuel depth s c =
      match Run.angles? 0 depth ts with
      | some (_, us) => .ok (s.between first (c.leaving us).place) (c.leaving us)
      | none => .error (.type .openAngle) (c.leaving []) := by
  induction fuel generalizing c ts depth with
  | zero => exact absurd hfuel (Nat.not_lt_zero _)
  | succ fuel ih =>
      cases ts with
      | nil =>
          simp only [anglesFrom, bind_apply, peek?_apply h, List.getElem?_nil, Run.angles?]
          rw [← h.eq_leaving]
          rfl
      | cons t ts =>
          simp only [anglesFrom, bind_apply, peek?_apply h, List.getElem?_cons_zero, branch_apply]
          by_cases ht : t.isOpener = true
          · obtain ⟨k, inner, close, us, rfl, ho, hc, hinner, hat, hus⟩ := h.exists_group ht
            have hless : us.length < fuel := Nat.lt_trans hus (Nat.lt_of_succ_lt_succ hfuel)
            rw [if_pos ht, group_apply h ho hc hinner, angles?_group ho hc hinner]
            simp only [ih hat hless hdepth, Cursor.leaving_leaving]
            cases Run.angles? 0 depth us <;> rfl
          have hless : ts.length < fuel := Nat.lt_of_succ_lt_succ hfuel
          have hmore : ∀ angles : Nat, 0 < angles → anglesFrom first fuel angles s (c.leaving ts) =
              match (Run.angles? 0 angles ts).map (Run.onto t) with
              | some (_, us) => .ok (s.between first (c.leaving us).place) (c.leaving us)
              | none => .error (.type .openAngle) (c.leaving []) := by
            intro angles hangles
            rw [ih h.tail hless hangles]
            cases Run.angles? 0 angles ts <;> rfl
          have hlast : (c.leaving ts).place ≤ s.tokens.length :=
            Nat.le_trans (Nat.sub_le _ _) h.stop_le
          rw [if_neg ht, advance_apply h, Run.angles?, if_neg ht, if_neg (Nat.lt_irrefl 0)]
          simp only
          split
          · exact_mod_cast hmore (depth + 1) (Nat.succ_pos _)
          split
          · by_cases hone : depth = 1
            · subst hone
              have hcast : ((1 : Nat) : Int) = 1 := rfl
              rw [if_pos hcast, if_pos (Nat.le_refl 1)]
              simp only [get_apply, slice_apply hlast]
            · have hdown : (depth : Int) - 1 = (depth - 1 : Nat) := by omega
              rw [if_neg (by omega), if_neg (by omega), hdown]
              exact hmore (depth - 1) (by omega)
          · exact hmore depth hdepth

theorem angles_apply {l : Nat} (h : At s c (mark l "<" :: ts)) : angles s c =
    match Run.angles? 0 0 (mark l "<" :: ts) with
    | some (run, us) => .ok run (c.leaving us)
    | none => .error (.type .openAngle) (c.leaving []) := by
  have hfuel : c.stop - c.place + 1 = ts.length + 1 + 1 := by
    rw [h.stop_eq, List.length_cons]
    omega
  have hstart : angles s c = anglesFrom c.place (ts.length + 1) (1 : Nat) s (c.leaving ts) := by
    simp only [angles, bind_apply, get_apply, hfuel]
    rw [anglesFrom]
    simp only [bind_apply, peek?_apply h, List.getElem?_cons_zero, branch_apply, advance_apply h]
    rfl
  have hrun : Run.angles? 0 0 (mark l "<" :: ts) =
      (Run.angles? 0 1 ts).map (Run.onto (mark l "<")) := rfl
  rw [hstart, anglesFrom_apply _ h.tail (Nat.lt_succ_self _) Nat.one_pos, hrun]
  cases hangles : Run.angles? 0 1 ts with
  | none => rfl
  | some split =>
      obtain ⟨run, us⟩ := split
      obtain rfl := Run.angles?_append_eq hangles
      have hbetween : s.between c.place (c.leaving us).place = mark l "<" :: run :=
        At.between_leaving h
      simp only [Cursor.leaving_leaving, hbetween]
      rfl

/-- A group outside of angle brackets is passed over whole, if no type ends with it. -/
theorem untilEnd_group {angles : Nat} (ho : t.opens? = some k) (hc : close.closes? = some k)
    (hinner : Balanced inner) (hend : ¬ (angles = 0 ∧ Run.endsType t = true)) (us : List Token) :
    (Run.untilEnd 0 angles (t :: (inner ++ close :: us))).2 = (Run.untilEnd 0 angles us).2 := by
  rw [Run.untilEnd, if_neg fun h => hend h.2, if_pos (isOpener_of_opens? ho),
    hinner.untilEnd_append, Run.untilEnd, isOpener_of_closes? hc, isCloser_of_closes? hc]
  simp [Balanced.ahead, Run.onto]

/-- The end of a type is the one of the list function. -/
theorem untilEndFrom_apply {fuel depth : Nat} (h : At s c ts) (hfuel : ts.length < fuel) :
    untilEndFrom fuel depth s c = .ok () (c.leaving (Run.untilEnd 0 depth ts).2) := by
  induction fuel generalizing c ts depth with
  | zero => exact absurd hfuel (Nat.not_lt_zero _)
  | succ fuel ih =>
      cases ts with
      | nil =>
          simp only [untilEndFrom, bind_apply, peek?_apply h, List.getElem?_nil, Run.untilEnd]
          rw [← h.eq_leaving]
          rfl
      | cons t ts =>
          simp only [untilEndFrom, bind_apply, peek?_apply h, List.getElem?_cons_zero,
            branch_apply]
          by_cases hend : depth = 0 ∧ Run.endsType t = true
          · rw [if_pos hend, Run.untilEnd, if_pos ⟨rfl, hend⟩]
            rw [← h.eq_leaving]
            rfl
          rw [if_neg hend]
          by_cases ht : t.isOpener = true
          · obtain ⟨k, inner, close, us, rfl, ho, hc, hinner, hat, hus⟩ := h.exists_group ht
            have hless : us.length < fuel := Nat.lt_trans hus (Nat.lt_of_succ_lt_succ hfuel)
            rw [if_pos ht, group_apply h ho hc hinner, untilEnd_group ho hc hinner hend]
            simp only [ih hat hless, Cursor.leaving_leaving]
          · have hless : ts.length < fuel := Nat.lt_of_succ_lt_succ hfuel
            have hother : t.isOpener = false := by simpa using ht
            rw [if_neg ht, advance_apply h, Run.untilEnd_inner hother hend]
            exact ih h.tail hless

theorem untilEnd_apply (h : At s c ts) : untilEnd s c =
    if (Run.untilEnd 0 0 ts).1.isEmpty then .error (.type .noType) c
    else .ok (Run.untilEnd 0 0 ts).1 (c.leaving (Run.untilEnd 0 0 ts).2) := by
  have hfuel : ts.length < c.stop - c.place + 1 := by
    rw [h.stop_eq]
    omega
  simp only [untilEnd, bind_apply, get_apply, untilEndFrom_apply h hfuel, branch_apply]
  have happend := Run.untilEnd_append 0 0 ts
  cases hsplit : Run.untilEnd 0 0 ts with
  | mk run us =>
  rw [hsplit] at happend
  obtain rfl : run ++ us = ts := happend
  have hstop := h.stop_eq
  cases run with
  | nil =>
      rw [List.nil_append] at h
      rw [← h.eq_leaving, if_pos rfl]
      rfl
  | cons t run =>
      have hplace : (c.leaving us).place ≠ c.place := by
        simp only [List.length_append, List.length_cons] at hstop
        simp only [Cursor.leaving]
        omega
      have hlast : (c.leaving us).place ≤ s.tokens.length := Nat.le_trans (Nat.sub_le _ _) h.stop_le
      rw [if_neg hplace, slice_apply hlast, h.between_leaving]
      rfl

/-- A group is passed over whole, and a brace group ends the item. -/
theorem afterItem_group (ho : t.opens? = some k) (hc : close.closes? = some k)
    (hinner : Balanced inner) (us : List Token) :
    Run.afterItem 0 false (t :: (inner ++ close :: us)) =
      if t.opens? == some .curly then us else Run.afterItem 0 false us := by
  rw [Run.afterItem, if_pos (isOpener_of_opens? ho), if_pos rfl, hinner.afterItem_append 0,
    Run.afterItem, isOpener_of_closes? hc, isCloser_of_closes? hc]
  cases t.opens? == some .curly <;> simp

/-- The end of an item is the one of the list function. -/
theorem skipItemFrom_apply {fuel : Nat} (h : At s c ts) (hfuel : ts.length < fuel) :
    skipItemFrom fuel s c = .ok () (c.leaving (Run.afterItem 0 false ts)) := by
  induction fuel generalizing c ts with
  | zero => exact absurd hfuel (Nat.not_lt_zero _)
  | succ fuel ih =>
      cases ts with
      | nil =>
          simp only [skipItemFrom, bind_apply, peek?_apply h, List.getElem?_nil, Run.afterItem]
          rw [← h.eq_leaving]
          rfl
      | cons t ts =>
          simp only [skipItemFrom, bind_apply, peek?_apply h, List.getElem?_cons_zero,
            branch_apply]
          by_cases ht : t.isOpener = true
          · obtain ⟨k, inner, close, us, rfl, ho, hc, hinner, hat, hus⟩ := h.exists_group ht
            have hless : us.length < fuel := Nat.lt_trans hus (Nat.lt_of_succ_lt_succ hfuel)
            rw [if_pos ht, group_apply h ho hc hinner, afterItem_group ho hc hinner]
            simp only
            split
            · rfl
            · exact ih hat hless
          · have hless : ts.length < fuel := Nat.lt_of_succ_lt_succ hfuel
            have hother : t.isOpener = false := by simpa using ht
            rw [if_neg ht, skip_apply h, Run.afterItem, if_neg ht, if_pos rfl]
            simp only
            split
            · rfl
            · exact ih h.tail hless

theorem skipItem_apply (h : At s c ts) :
    skipItem s c = .ok () (c.leaving (Run.afterItem 0 false ts)) := by
  have hfuel : ts.length < c.stop - c.place + 1 := by
    rw [h.stop_eq]
    omega
  simp only [skipItem, bind_apply, get_apply, skipItemFrom_apply h hfuel]

end PlaceReader

end ConversionClosure
