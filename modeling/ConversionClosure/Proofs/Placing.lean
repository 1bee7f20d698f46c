/-
Types read by places.

The readers of types are told here by places, step by step as they are told for lists.  Between the
brackets of a tuple or an array a reader goes on with a cursor of its own, and behind a fault the
cursor stays where it was.

`Follows` says that a reader by places does what a reader of a list does, on the tokens that its
cursor has before it.  It is closed under putting readers together, so that each reader is followed
because its steps are, by induction on the fuel that both have.
-/
import ConversionClosure.Proofs.Places

namespace ConversionClosure

open Token Reference

/-! ### Readers -/

namespace PlaceReader

/-- The lifetime that may follow an ampersand. -/
def readLifetime : PlaceReader String := do
  match ← peek? 0 with
  | some t => if t.kind == .lifetime then skip; return t.text else return ""
  | none => return ""

mutual

/-- Reads a type. -/
def readType : Nat → PlaceReader Reference
  | 0 => fail .outOfFuel
  | fuel + 1 => do
    match ← peek? 0 with
    | none => fail .noTypeAtEnd
    | some t =>
      if t.isPunct "&" then
        skip
        let lifetime ← readLifetime
        let exclusive ← atIdent "mut"
        if exclusive then skip
        let inner ← readType fuel
        return { modifier := if exclusive then .exclusive else .shared, args := [inner], lifetime }
      else if t.isPunct "*" then
        skip
        let qualifier ← next
        if qualifier.isIdent "const" then
          return { modifier := .constPointer, args := [← readType fuel] }
        else if qualifier.isIdent "mut" then
          return { modifier := .mutPointer, args := [← readType fuel] }
        else fail (.malformedPointer qualifier.line)
      else if t.isPunct "(" then
        let (elements, trailing) ← within (readElements fuel)
        match elements, trailing with
        | [element], false => return element
        | _, _ => return { modifier := .tuple, args := elements }
      else if t.isPunct "[" then
        within do
          let element ← readType fuel
          if ← atEnd then return { modifier := .slice, args := [element] }
          expect ";"
          let length := Token.join (← rest)
          if length = "" then fail .noArrayLength
          return { modifier := .array, args := [element], length }
      else if t.isPunct "<" then return ofText (Token.join (← untilEnd))
      else if t.isPunct "!" || t.isIdent "_" then
        skip
        return ofText t.text
      else if t.kind == .ident && verbatimStarts.contains t.text then
        return ofText (Token.join (← untilEnd))
      else if t.isPunct "::" then
        skip
        readPath fuel []
      else if t.kind == .ident then readPath fuel []
      else fail (.notAType t.text t.line)

/-- Reads the elements of a tuple up to the end, and tells whether the last one has a comma. -/
def readElements : Nat → PlaceReader (List Reference × Bool)
  | 0 => fail .outOfFuel
  | fuel + 1 => do
    if ← atEnd then return ([], true)
    let element ← readType fuel
    if ← atEnd then return ([element], false)
    expect ","
    let (elements, trailing) ← readElements fuel
    return (element :: elements, trailing)

/-- Reads a path that goes on after `segments`. -/
def readPath : Nat → List String → PlaceReader Reference
  | 0, _ => fail .outOfFuel
  | fuel + 1, segments => do
    let t ← next
    unless t.kind == .ident do fail (.notASegment t.text t.line)
    if ← atPunct "!" 0 then
      skip
      unless (← peek? 0).any (·.isOpener) do fail (.malformedMacro t.line)
      let body ← group
      return ofText (joinSegments (segments ++ [t.text]) ++ "!" ++ Token.join body)
    else if ← atPunct "(" 0 then
      let body ← group
      let text := t.text ++ Token.join body
      if ← atPunct "->" 0 then
        skip
        let result ← readType fuel
        return ofText (joinSegments (segments ++ [text ++ " -> " ++ render result]))
      else return ofText (joinSegments (segments ++ [text]))
    else
      if (← atPunct "::" 0) && (← atPunct "<" 1) then skip
      let args ← if ← atPunct "<" 0 then skip; readArguments fuel else pure []
      if (← atPunct "::" 0) && (← peek? 1).any (·.kind == .ident) then
        skip
        readPath fuel (segments ++ [segmentText t.text args])
      else return { segments := segments ++ [t.text], args }

/-- Reads type arguments after their opening angle bracket. -/
def readArguments : Nat → PlaceReader (List Reference)
  | 0 => fail .outOfFuel
  | fuel + 1 => do
    if ← atPunct ">" 0 then
      skip
      return []
    let argument ← match ← peek? 0 with
      | none => fail .openArguments
      | some t =>
        if t.kind == .lifetime || t.kind == .literal then
          skip
          pure (ofText t.text)
        else if t.isPunct (Bracket.opener .curly) then pure (ofText (Token.join (← group)))
        else if t.kind == .ident && ((← atPunct "=" 1) || (← atPunct ":" 1)) then
          let name ← next
          let separator ← next
          let bound ← untilEnd
          pure (ofText (Token.join (name :: separator :: bound)))
        else readType fuel
    if ← atPunct "," 0 then skip
    else unless ← atPunct ">" 0 do
      match ← peek? 0 with
      | some found => fail (.betweenArguments found.text found.line)
      | none => fail .openArguments
    return argument :: (← readArguments fuel)

end

/-- Reads a type, with fuel for the tokens that are left in the stretch. -/
def typeReader : PlaceReader Reference := do
  let c ← get
  readType (3 * (c.stop - c.place + 1))

end PlaceReader

/-! ### One reader follows another -/

variable {α β γ δ : Type} {s : TokenStream} {c : Cursor} {ts us : List Token} {t : Token}

/-- The reader by places does at the cursor what the reader of a list does with its tokens.  Both
come to the same value or the same fault, and leave the same tokens. -/
inductive Follows (s : TokenStream) (c : Cursor) (x : PlaceReader α) (y : TokenReader α)
    (ts : List Token) : Prop
  | ok {a : α} {us : List Token} (hx : x s c = .ok a (c.leaving us)) (hy : y ts = .ok a us)
      (hat : At s (c.leaving us) us)
  | fault {fault : TypeFault} {us : List Token} (hx : x s c = .error (.type fault) (c.leaving us))
      (hy : y ts = .error fault us) (hat : At s (c.leaving us) us)

namespace Follows

variable {x x' : PlaceReader α} {y y' : TokenReader α} {f : α → PlaceReader β}
  {g : α → TokenReader β}

theorem of_ok {a : α} (h : Follows s c x y ts) (hread : y ts = .ok a us) :
    x s c = .ok a (c.leaving us) ∧ At s (c.leaving us) us := by
  cases h with
  | ok hx hy hat =>
      rw [hread] at hy
      cases hy
      exact ⟨hx, hat⟩
  | fault hx hy hat =>
      rw [hread] at hy
      cases hy

theorem of_error {fault : TypeFault} (h : Follows s c x y ts) (hread : y ts = .error fault us) :
    x s c = .error (.type fault) (c.leaving us) ∧ At s (c.leaving us) us := by
  cases h with
  | ok hx hy hat =>
      rw [hread] at hy
      cases hy
  | fault hx hy hat =>
      rw [hread] at hy
      cases hy
      exact ⟨hx, hat⟩

theorem pure (h : At s c ts) (a : α) : Follows s c (Pure.pure a) (Pure.pure a) ts := by
  have hx : (Pure.pure a : PlaceReader α) s c = .ok a (c.leaving ts) := by
    rw [← h.eq_leaving, PlaceReader.pure_apply]
  exact .ok hx rfl (h.leave List.suffix_rfl)

theorem fail (h : At s c ts) (fault : TypeFault) :
    Follows s c (PlaceReader.fail fault) (MonadExcept.throw fault : TokenReader α) ts := by
  have hx : (PlaceReader.fail fault : PlaceReader α) s c = .error (.type fault) (c.leaving ts) := by
    rw [← h.eq_leaving, PlaceReader.fail_apply]
  exact .fault hx rfl (h.leave List.suffix_rfl)

theorem congr (h : Follows s c x y ts) (hx : x' s c = x s c) (hy : y' ts = y ts) :
    Follows s c x' y' ts := by
  cases h with
  | ok hx' hy' hat => exact .ok (hx.trans hx') (hy.trans hy') hat
  | fault hx' hy' hat => exact .fault (hx.trans hx') (hy.trans hy') hat

/-- Behind readers that come to one end for sure. -/
theorem ok_bind {x : PlaceReader γ} {y : TokenReader δ} {f : γ → PlaceReader β}
    {g : δ → TokenReader β} {a : γ} {b : δ} (hx : x s c = .ok a (c.leaving us))
    (hy : y ts = .ok b us) (h : Follows s (c.leaving us) (f a) (g b) us) :
    Follows s c (x >>= f) (y >>= g) ts := by
  have hplace : (x >>= f) s c = f a s (c.leaving us) := by
    rw [PlaceReader.bind_apply, hx]
  have hlist : (y >>= g) ts = g b us := by
    rw [TokenReader.bind_apply, hy]
  cases h with
  | ok hx' hy' hat => exact .ok (hplace.trans hx') (hlist.trans hy') hat
  | fault hx' hy' hat => exact .fault (hplace.trans hx') (hlist.trans hy') hat

/-- Behind readers that only look. -/
theorem look_bind {x : PlaceReader γ} {y : TokenReader δ} {f : γ → PlaceReader β}
    {g : δ → TokenReader β} {a : γ} {b : δ} (h : At s c ts) (hx : x s c = .ok a c)
    (hy : y ts = .ok b ts) (hf : Follows s c (f a) (g b) ts) :
    Follows s c (x >>= f) (y >>= g) ts := by
  have hc := h.eq_leaving
  have hstay : x s c = .ok a (c.leaving ts) := by
    rw [← hc, hx]
  rw [hc] at hf
  exact .ok_bind hstay hy hf

/-- Behind readers that fail for sure. -/
theorem error_bind {fault : TypeFault} (hx : x s c = .error (.type fault) (c.leaving us))
    (hy : y ts = .error fault us) (hat : At s (c.leaving us) us) :
    Follows s c (x >>= f) (y >>= g) ts := by
  have hplace : (x >>= f) s c = .error (.type fault) (c.leaving us) := by
    rw [PlaceReader.bind_apply, hx]
  have hlist : (y >>= g) ts = .error fault us := by
    rw [TokenReader.bind_apply, hy]
  exact .fault hplace hlist hat

theorem bind (h : Follows s c x y ts)
    (hf : ∀ a us, At s (c.leaving us) us → Follows s (c.leaving us) (f a) (g a) us) :
    Follows s c (x >>= f) (y >>= g) ts := by
  cases h with
  | ok hx hy hat => exact .ok_bind hx hy (hf _ _ hat)
  | fault hx hy hat => exact .error_bind hx hy hat

theorem fail_bind (h : At s c ts) (fault : TypeFault) :
    Follows s c (PlaceReader.fail fault >>= f) (MonadExcept.throw fault >>= g) ts := by
  have hx : (PlaceReader.fail fault : PlaceReader α) s c = .error (.type fault) (c.leaving ts) := by
    rw [← h.eq_leaving, PlaceReader.fail_apply]
  exact .error_bind hx rfl (h.leave List.suffix_rfl)

theorem branch {p : Prop} [Decidable p] (hx : p → Follows s c x y ts)
    (hx' : ¬ p → Follows s c x' y' ts) :
    Follows s c (if p then x else x') (if p then y else y') ts := by
  split
  · exact hx ‹_›
  · exact hx' ‹_›

/-! ### Single steps -/

theorem peek?_bind {f : Option Token → PlaceReader β} {g : Option Token → TokenReader β}
    (h : At s c ts) (hf : Follows s c (f ts.head?) (g ts.head?) ts) :
    Follows s c (PlaceReader.peek? 0 >>= f) (TokenReader.peek? >>= g) ts := by
  refine .look_bind h (PlaceReader.peek?_apply h 0) (TokenReader.peek?_apply ts) ?_
  rwa [← List.head?_eq_getElem?]

/-- A reader of a list may look at all that is left where one by places looks at one token. -/
theorem peek?_get_bind {f : Option Token → PlaceReader β} {g : List Token → TokenReader β}
    {offset : Nat} (h : At s c ts) (hf : Follows s c (f ts[offset]?) (g ts) ts) :
    Follows s c (PlaceReader.peek? offset >>= f) (MonadState.get >>= g) ts :=
  .look_bind h (PlaceReader.peek?_apply h offset) (TokenReader.get_apply ts) hf

theorem rest_bind {f : List Token → PlaceReader β} {g : List Token → TokenReader β}
    (h : At s c ts) (hf : Follows s c (f ts) (g ts) ts) :
    Follows s c (PlaceReader.rest >>= f) (MonadState.get >>= g) ts :=
  .look_bind h (PlaceReader.rest_apply h) (TokenReader.get_apply ts) hf

theorem atEnd_bind {f : Bool → PlaceReader β} {g : Bool → TokenReader β} (h : At s c ts)
    (hf : Follows s c (f ts.isEmpty) (g ts.isEmpty) ts) :
    Follows s c (PlaceReader.atEnd >>= f) (TokenReader.atEnd >>= g) ts :=
  .look_bind h (PlaceReader.atEnd_apply h) (TokenReader.atEnd_apply ts) hf

theorem atPunct_bind {f : Bool → PlaceReader β} {g : Bool → TokenReader β} {text : String}
    {offset : Nat} (h : At s c ts)
    (hf : Follows s c (f (ts[offset]?.any (·.isPunct text))) (g (ts[offset]?.any (·.isPunct text)))
      ts) :
    Follows s c (PlaceReader.atPunct text offset >>= f) (TokenReader.atPunct text offset >>= g)
      ts := by
  have hx : PlaceReader.atPunct text offset s c = .ok (ts[offset]?.any (·.isPunct text)) c := by
    simp only [PlaceReader.atPunct, PlaceReader.bind_apply, PlaceReader.peek?_apply h,
      PlaceReader.pure_apply]
  exact .look_bind h hx (TokenReader.atPunct_apply text offset ts) hf

theorem atIdent_bind {f : Bool → PlaceReader β} {g : Bool → TokenReader β} {text : String}
    (h : At s c ts)
    (hf : Follows s c (f (ts.head?.any (·.isIdent text))) (g (ts.head?.any (·.isIdent text))) ts) :
    Follows s c (PlaceReader.atIdent text >>= f) (TokenReader.atIdent text >>= g) ts := by
  have hx : PlaceReader.atIdent text s c = .ok (ts.head?.any (·.isIdent text)) c := by
    simp only [PlaceReader.atIdent, PlaceReader.bind_apply, PlaceReader.peek?_apply h,
      PlaceReader.pure_apply, List.head?_eq_getElem?]
  exact .look_bind h hx (TokenReader.atIdent_apply text ts) hf

theorem skip_bind {f : Unit → PlaceReader β} {g : Unit → TokenReader β} (h : At s c (t :: ts))
    (hf : At s (c.leaving ts) ts → Follows s (c.leaving ts) (f ()) (g ()) ts) :
    Follows s c (PlaceReader.skip >>= f) (TokenReader.skip >>= g) (t :: ts) :=
  .ok_bind (PlaceReader.skip_apply h) rfl (hf h.tail)

theorem next_bind {f : Token → PlaceReader β} {g : Token → TokenReader β} (h : At s c ts)
    (hf : ∀ t us, ts = t :: us → At s (c.leaving us) us → Follows s (c.leaving us) (f t) (g t) us) :
    Follows s c (PlaceReader.next >>= f) (TokenReader.next >>= g) ts := by
  cases ts with
  | cons t ts => exact .ok_bind (PlaceReader.next_apply h) rfl (hf t ts rfl h.tail)
  | nil =>
      have hx : PlaceReader.next s c = .error (.type .endOfTokens) (c.leaving []) := by
        simp only [PlaceReader.next, PlaceReader.bind_apply, PlaceReader.peek?_apply h,
          List.getElem?_nil]
        rw [← h.eq_leaving, PlaceReader.fail_apply]
      exact .error_bind hx rfl (h.leave List.suffix_rfl)

theorem expect_bind {f : Unit → PlaceReader β} {g : Unit → TokenReader β} {text : String}
    (h : At s c ts)
    (hf : ∀ us, At s (c.leaving us) us → Follows s (c.leaving us) (f ()) (g ()) us) :
    Follows s c (PlaceReader.expect text >>= f) (TokenReader.expect text >>= g) ts := by
  refine .bind (.next_bind h fun t us _ hat => ?_) fun _ us hat => hf us hat
  exact .branch (fun _ => .pure hat ()) fun _ => .fail hat _

theorem group_bind {f : List Token → PlaceReader β} {g : List Token → TokenReader β}
    (h : At s c (t :: ts)) (ht : t.isOpener = true)
    (hf : ∀ run us, At s (c.leaving us) us → Follows s (c.leaving us) (f run) (g run) us) :
    Follows s c (PlaceReader.group >>= f) (TokenReader.group >>= g) (t :: ts) := by
  obtain ⟨k, inner, close, us, rfl, ho, hc, hinner, hat, -⟩ := h.exists_group ht
  exact .ok_bind (PlaceReader.group_apply h ho hc hinner)
    (TokenReader.group_balanced ho hc hinner) (hf _ us hat)

/-- Inside of a group the readers go on with the tokens between its brackets. -/
theorem within (h : At s c (t :: ts)) (ht : t.isOpener = true)
    (hxy : ∀ c' inner, At s c' inner → Follows s c' x y inner) :
    Follows s c (PlaceReader.within x)
      (TokenReader.group >>= fun run => TokenReader.within (Run.inside run) y) (t :: ts) := by
  obtain ⟨k, inner, close, us, rfl, ho, hc, hinner, hat, -⟩ := h.exists_group ht
  have hlist : (TokenReader.group >>= fun run => TokenReader.within (Run.inside run) y)
      (t :: (inner ++ close :: us)) = TokenReader.within inner y us := by
    rw [TokenReader.bind_apply, TokenReader.group_balanced ho hc hinner]
    dsimp only
    rw [Balanced.inside_group]
  cases hxy _ inner (h.inside hinner) with
  | ok hx hy _ =>
      refine .ok ?_ (hlist.trans (TokenReader.within_ok hy)) hat
      rw [PlaceReader.within_apply h ho hc hinner, PlaceReader.inside, hx]
  | @fault fault _ hx hy _ =>
      have hplace : PlaceReader.within x s c = .error (.type fault) (c.leaving us) := by
        rw [PlaceReader.within_apply h ho hc hinner, PlaceReader.inside, hx]
      refine .fault hplace (hlist.trans ?_) hat
      rw [TokenReader.within, hy]

theorem within_bind (h : At s c (t :: ts)) (ht : t.isOpener = true)
    (hxy : ∀ c' inner, At s c' inner → Follows s c' x y inner)
    (hf : ∀ a us, At s (c.leaving us) us → Follows s (c.leaving us) (f a) (g a) us) :
    Follows s c (PlaceReader.within x >>= f)
      (TokenReader.group >>= fun run => TokenReader.within (Run.inside run) y >>= g) (t :: ts) := by
  rw [← bind_assoc]
  exact .bind (.within h ht hxy) hf

theorem untilEnd_bind {f : List Token → PlaceReader β} {g : List Token → TokenReader β}
    (h : At s c ts)
    (hf : ∀ run us, At s (c.leaving us) us → Follows s (c.leaving us) (f run) (g run) us) :
    Follows s c (PlaceReader.untilEnd >>= f) (TokenReader.untilEnd >>= g) ts := by
  have hx := PlaceReader.untilEnd_apply h
  have hy := TokenReader.untilEnd_apply ts
  cases hsplit : Run.untilEnd 0 0 ts with
  | mk run us =>
  have hus : us <:+ ts := ⟨run, by simpa [hsplit] using Run.untilEnd_append 0 0 ts⟩
  cases run with
  | nil =>
      simp only [hsplit, List.isEmpty_nil, if_true] at hx hy
      have hstay : PlaceReader.untilEnd s c = .error (.type .noType) (c.leaving ts) := by
        rw [hx, ← h.eq_leaving]
      exact .error_bind hstay hy (h.leave List.suffix_rfl)
  | cons t run =>
      simp only [hsplit, List.isEmpty_cons, Bool.false_eq_true, if_false] at hx hy
      exact .ok_bind hx hy (hf _ us (h.leave hus))

/-- A branch on the next token: where it is the mark, there is such a token. -/
theorem ifPunct {text : String} (h : At s c ts)
    (hx : ∀ l us, ts = mark l text :: us → Follows s c x y (mark l text :: us))
    (hx' : Follows s c x' y' ts) :
    Follows s c (do if ← PlaceReader.atPunct text 0 then x else x')
      (do if ← TokenReader.atPunct text 0 then y else y') ts := by
  refine .atPunct_bind h ?_
  cases ts with
  | nil => exact hx'
  | cons t ts =>
      refine .branch (fun hmark => ?_) fun _ => hx'
      obtain ⟨l, rfl⟩ := exists_mark (show t.isPunct text = true from hmark)
      exact hx l ts rfl

/-- A branch on the next token: where it is the name, there is such a token. -/
theorem ifIdent {text : String} (h : At s c ts)
    (hx : ∀ t us, ts = t :: us → Follows s c x y (t :: us)) (hx' : Follows s c x' y' ts) :
    Follows s c (do if ← PlaceReader.atIdent text then x else x')
      (do if ← TokenReader.atIdent text then y else y') ts := by
  refine .atIdent_bind h ?_
  cases ts with
  | nil => exact hx'
  | cons t ts => exact .branch (fun _ => hx t ts rfl) fun _ => hx'

end Follows

/-! ### Types -/

namespace PlaceReader

theorem readLifetime_follows (h : At s c ts) :
    Follows s c readLifetime Reference.readLifetime ts := by
  unfold readLifetime Reference.readLifetime
  refine .peek?_bind h ?_
  cases ts with
  | nil => exact .pure h _
  | cons t ts => exact .branch (fun _ => .skip_bind h fun hat => .pure hat _) fun _ => .pure h _

/-- With the same fuel, every reader of types by places follows the one of lists. -/
structure ReadersFollow (fuel : Nat) : Prop where
  readType : ∀ {s c ts}, At s c ts → Follows s c (readType fuel) (Reference.readType fuel) ts
  readElements : ∀ {s c ts}, At s c ts →
    Follows s c (readElements fuel) (Reference.readElements fuel) ts
  readPath : ∀ {s c ts segments}, At s c ts →
    Follows s c (readPath fuel segments) (Reference.readPath fuel segments) ts
  readArguments : ∀ {s c ts}, At s c ts →
    Follows s c (readArguments fuel) (Reference.readArguments fuel) ts

variable {fuel : Nat} {segments : List String}

theorem verbatim_follows (h : At s c ts) :
    Follows s c (do return ofText (join (← untilEnd)))
      (do return ofText (join (← TokenReader.untilEnd))) ts :=
  .untilEnd_bind h fun _ _ hat => .pure hat _

/-- What stands in square brackets: an element, or an element and a length. -/
def bracketed (fuel : Nat) : PlaceReader Reference := do
  let element ← readType fuel
  if ← atEnd then return { modifier := .slice, args := [element] }
  expect ";"
  let length := join (← rest)
  if length = "" then fail .noArrayLength
  return { modifier := .array, args := [element], length }

theorem bracketed_follows (ih : ReadersFollow fuel) (h : At s c ts) :
    Follows s c (bracketed fuel) (Reference.bracketed fuel) ts := by
  unfold bracketed Reference.bracketed
  refine .bind (ih.readType h) fun element us hat => .atEnd_bind hat ?_
  refine .branch (fun _ => .pure hat _) fun _ => .expect_bind hat fun vs hat => .rest_bind hat ?_
  exact .branch (fun _ => .fail_bind hat _) fun _ => .pure hat _

theorem readType_follows (ih : ReadersFollow fuel) (h : At s c ts) :
    Follows s c (readType (fuel + 1)) (Reference.readType (fuel + 1)) ts := by
  have hinner : ∀ (f : Reference → Reference) us, At s (c.leaving us) us →
      Follows s (c.leaving us) (do return f (← readType fuel))
        (do return f (← Reference.readType fuel)) us :=
    fun f us hat => .bind (ih.readType hat) fun _ _ hat' => .pure hat' _
  simp only [readType, Reference.readType]
  refine .peek?_bind h ?_
  cases ts with
  | nil => exact .fail h _
  | cons t ts =>
      dsimp only [List.head?_cons]
      refine .branch (fun _ => ?_) fun _ => ?_
      · refine .skip_bind h fun hat => .bind (readLifetime_follows hat) fun lifetime us hat => ?_
        refine .atIdent_bind hat ?_
        cases us with
        | nil => exact hinner _ [] hat
        | cons u us =>
            refine .branch (fun _ => ?_) fun _ => hinner _ (u :: us) hat
            exact .skip_bind hat fun hat => hinner _ us hat
      refine .branch (fun _ => ?_) fun _ => ?_
      · refine .skip_bind h fun hat => .next_bind hat fun qualifier us _ hat => ?_
        refine .branch (fun _ => hinner _ us hat) fun _ => ?_
        exact .branch (fun _ => hinner _ us hat) fun _ => .fail hat _
      refine .branch (fun hmark => ?_) fun _ => ?_
      · obtain ⟨l, rfl⟩ := exists_mark hmark
        refine .within_bind h rfl (fun c' inner hat => ih.readElements hat) ?_
        rintro ⟨_ | ⟨element, _ | ⟨second, more⟩⟩, trailing⟩ us hat
        · exact .pure hat _
        · cases trailing with
          | false => exact .pure hat _
          | true => exact .pure hat _
        · exact .pure hat _
      refine .branch (fun hmark => ?_) fun _ => ?_
      · obtain ⟨l, rfl⟩ := exists_mark hmark
        exact .within h rfl fun c' inner hat => bracketed_follows ih hat
      refine .branch (fun _ => verbatim_follows h) fun _ => ?_
      refine .branch (fun _ => .skip_bind h fun hat => .pure hat _) fun _ => ?_
      refine .branch (fun _ => verbatim_follows h) fun _ => ?_
      refine .branch (fun _ => .skip_bind h fun hat => ih.readPath hat) fun _ => ?_
      exact .branch (fun _ => ih.readPath h) fun _ => .fail h _

theorem readElements_follows (ih : ReadersFollow fuel) (h : At s c ts) :
    Follows s c (readElements (fuel + 1)) (Reference.readElements (fuel + 1)) ts := by
  simp only [readElements, Reference.readElements]
  refine .atEnd_bind h (.branch (fun _ => .pure h _) fun _ => ?_)
  refine .bind (ih.readType h) fun element us hat => .atEnd_bind hat ?_
  refine .branch (fun _ => .pure hat _) fun _ => .expect_bind hat fun vs hat => ?_
  exact .bind (ih.readElements hat) fun _ _ hat => .pure hat _

/-- A path behind one of its segments and the arguments of that, which may be its last one. -/
def goOn (fuel : Nat) (segments : List String) (segment : String) (args : List Reference) :
    PlaceReader Reference := do
  if (← atPunct "::" 0) && (← peek? 1).any (·.kind == .ident) then
    skip
    readPath fuel (segments ++ [segmentText segment args])
  else return { segments := segments ++ [segment], args }

theorem goOn_follows {segment : String} {args : List Reference} (ih : ReadersFollow fuel)
    (h : At s c ts) : Follows s c (goOn fuel segments segment args)
      (Reference.goOn fuel segments segment args) ts := by
  unfold goOn Reference.goOn
  refine .atPunct_bind h (.peek?_get_bind h ?_)
  cases ts with
  | nil => exact .pure h _
  | cons t ts =>
      exact .branch (fun _ => .skip_bind h fun hat => ih.readPath hat) fun _ => .pure h _

/-- A path behind one of its segments. -/
def withArguments (fuel : Nat) (segments : List String) (segment : String) :
    PlaceReader Reference := do
  if ← atPunct "<" 0 then
    skip
    goOn fuel segments segment (← readArguments fuel)
  else goOn fuel segments segment []

theorem withArguments_follows {segment : String} (ih : ReadersFollow fuel) (h : At s c ts) :
    Follows s c (withArguments fuel segments segment)
      (Reference.withArguments fuel segments segment) ts := by
  unfold withArguments Reference.withArguments
  refine .ifPunct h ?_ (goOn_follows ih h)
  rintro l us rfl
  refine .skip_bind h fun hat => ?_
  exact .bind (ih.readArguments hat) fun args vs hat => goOn_follows ih hat

theorem readPath_follows (ih : ReadersFollow fuel) (h : At s c ts) :
    Follows s c (readPath (fuel + 1) segments) (Reference.readPath (fuel + 1) segments) ts := by
  simp only [readPath, Reference.readPath]
  refine .next_bind h fun t us _ hat => .branch (fun _ => ?_) fun _ => .fail_bind hat _
  refine .ifPunct hat ?_ (.ifPunct hat ?_ ?_)
  · rintro l us rfl
    refine .skip_bind hat fun hat => .peek?_bind hat (.branch (fun hopener => ?_) fun _ => ?_)
    · cases us with
      | nil => simp at hopener
      | cons o us => exact .group_bind hat hopener fun _ _ hat => .pure hat _
    · exact .fail_bind hat _
  · rintro l us rfl
    refine .group_bind hat rfl fun body vs hat => ?_
    refine .ifPunct hat ?_ (.pure hat _)
    rintro l' vs rfl
    exact .skip_bind hat fun hat => .bind (ih.readType hat) fun _ _ hat => .pure hat _
  · have hmore : ∀ vs, At s (c.leaving vs) vs → Follows s (c.leaving vs)
        (withArguments fuel segments t.text) (Reference.withArguments fuel segments t.text) vs :=
      fun vs hat => withArguments_follows ih hat
    refine .atPunct_bind hat (.atPunct_bind hat ?_)
    cases us with
    | nil => exact hmore [] hat
    | cons u us =>
        exact .branch (fun _ => .skip_bind hat fun hat => hmore us hat) fun _ => hmore (u :: us) hat

/-- Type arguments behind one of them. -/
def moreArguments (fuel : Nat) (argument : Reference) : PlaceReader (List Reference) := do
  if ← atPunct "," 0 then skip
  else unless ← atPunct ">" 0 do
    match ← peek? 0 with
    | some found => fail (.betweenArguments found.text found.line)
    | none => fail .openArguments
  return argument :: (← readArguments fuel)

theorem moreArguments_follows {argument : Reference} (ih : ReadersFollow fuel) (h : At s c ts) :
    Follows s c (moreArguments fuel argument) (Reference.moreArguments fuel argument) ts := by
  have hread : ∀ c us, At s c us → Follows s c (do return argument :: (← readArguments fuel))
      (do return argument :: (← Reference.readArguments fuel)) us :=
    fun c us hat => .bind (ih.readArguments hat) fun _ _ hat => .pure hat _
  unfold moreArguments Reference.moreArguments
  refine .ifPunct h ?_ (.ifPunct h ?_ ?_)
  · rintro l us rfl
    exact .skip_bind h fun hat => hread _ us hat
  · rintro l us rfl
    exact hread c _ h
  · refine .peek?_bind h ?_
    cases ts with
    | nil => exact .fail_bind h _
    | cons t ts => exact .fail_bind h _

theorem readArguments_follows (ih : ReadersFollow fuel) (h : At s c ts) :
    Follows s c (readArguments (fuel + 1)) (Reference.readArguments (fuel + 1)) ts := by
  have hmore : ∀ argument us, At s (c.leaving us) us → Follows s (c.leaving us)
      (moreArguments fuel argument) (Reference.moreArguments fuel argument) us :=
    fun argument us hat => moreArguments_follows ih hat
  simp only [readArguments, Reference.readArguments]
  refine .ifPunct h ?_ ?_
  · rintro l us rfl
    exact .skip_bind h fun hat => .pure hat _
  refine .peek?_bind h ?_
  cases ts with
  | nil => exact .fail_bind h _
  | cons t ts =>
      dsimp only [List.head?_cons]
      refine .branch (fun _ => .skip_bind h fun hat => hmore _ ts hat) fun _ => ?_
      refine .branch (fun hmark => ?_) fun _ => ?_
      · obtain ⟨l, rfl⟩ := exists_mark hmark
        exact .group_bind h rfl fun run us hat => hmore _ us hat
      refine .atPunct_bind h (.atPunct_bind h (.branch (fun _ => ?_) fun _ => ?_))
      · refine .next_bind h fun name us _ hat => .next_bind hat fun separator vs _ hat => ?_
        exact .untilEnd_bind hat fun run ws hat => hmore _ ws hat
      · exact .bind (ih.readType h) fun argument us hat => hmore argument us hat

theorem readersFollow (fuel : Nat) : ReadersFollow fuel := by
  induction fuel with
  | zero => exact ⟨fun h => .fail h _, fun h => .fail h _, fun h => .fail h _, fun h => .fail h _⟩
  | succ fuel ih =>
      exact ⟨fun h => readType_follows ih h, fun h => readElements_follows ih h,
        fun h => readPath_follows ih h, fun h => readArguments_follows ih h⟩

/-- **The reader of types by places follows the one of lists.** -/
theorem typeReader_follows (h : At s c ts) : Follows s c typeReader Reference.reader ts := by
  have hfuel : c.stop - c.place = ts.length := by
    rw [h.stop_eq, Nat.add_sub_cancel_left]
  have hplace : typeReader s c = readType (3 * (ts.length + 1)) s c := by
    simp only [typeReader, bind_apply, get_apply, hfuel]
  exact .congr ((readersFollow (3 * (ts.length + 1))).readType h) hplace rfl

end PlaceReader

end ConversionClosure
