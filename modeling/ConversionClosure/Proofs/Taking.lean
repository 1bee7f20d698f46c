/-
What readers make of tokens.

`Gives` follows a reader through its steps: from tokens that fit it goes on to such tokens, also
where it fails, and what it reads is as asked for.  What is asked for of a type is handed on from
its parts, and `Inherits` lists the ways in which that happens.  So every type that is read is sound,
and a text is only made of what stands in the tokens.
-/
import ConversionClosure.Proofs.Reading
import ConversionClosure.Proofs.Tokens

namespace ConversionClosure

open Text Token

namespace TokenReader

variable {α β : Type} {x : TokenReader α} {ts run after : List Token} {t : Token}
  {fit : Token → Prop} {post post' : α → Prop} {last : β → Prop}

/-- Every token of the list fits. -/
abbrev All (fit : Token → Prop) (ts : List Token) : Prop := ∀ t ∈ ts, fit t

/-- Run on some tokens, the reader leaves tokens that fit, and what it reads, unless it fails, is as
`post` says. -/
def Gives (fit : Token → Prop) (x : TokenReader α) (ts : List Token) (post : α → Prop) : Prop :=
  match x ts with
  | .ok a rest => All fit rest ∧ post a
  | .error _ rest => All fit rest

theorem all_of_append (h : All fit ts) (happend : run ++ after = ts) :
    All fit run ∧ All fit after := by
  subst happend
  exact ⟨fun t ht => h t (by simp [ht]), fun t ht => h t (by simp [ht])⟩

theorem all_tail (h : All fit ts) : All fit ts.tail := fun t ht => h t (List.mem_of_mem_tail ht)

theorem all_inside (h : All fit ts) : All fit (Run.inside ts) :=
  fun t ht => h t (List.mem_of_mem_tail ((List.dropLast_sublist _).subset ht))

namespace Gives

theorem pure {a : α} (h : All fit ts) (ha : post a) : Gives fit (pure a) ts post := ⟨h, ha⟩

theorem throw {fault : TypeFault} (h : All fit ts) : Gives fit (throw fault) ts post := h

theorem bind {f : α → TokenReader β} (hx : Gives fit x ts post)
    (hf : ∀ a rest, All fit rest → post a → Gives fit (f a) rest last) : Gives fit (x >>= f) ts last := by
  unfold Gives at hx ⊢
  rw [bind_apply]
  cases hrun : x ts with
  | ok a rest =>
      rw [hrun] at hx
      exact hf a rest hx.1 hx.2
  | error fault rest =>
      rw [hrun] at hx
      exact hx

theorem throw_bind {fault : TypeFault} {f : α → TokenReader β} (h : All fit ts) :
    Gives fit (MonadExcept.throw fault >>= f) ts last := h

/-! ### Steps of a reader -/

theorem get (h : All fit ts) : Gives fit get ts (All fit) := ⟨h, h⟩

theorem peek? (h : All fit ts) : Gives fit peek? ts fun _ => True := ⟨h, trivial⟩

/-- The next token is looked at, and the reader goes on in front of it. -/
theorem peek?_cons {f : Option Token → TokenReader β} (h : Gives fit (f (some t)) (t :: ts) last) :
    Gives fit (TokenReader.peek? >>= f) (t :: ts) last := h

theorem atEnd (h : All fit ts) : Gives fit atEnd ts fun _ => True := ⟨h, trivial⟩

theorem atPunct (h : All fit ts) (text : String) (offset : Nat) :
    Gives fit (atPunct text offset) ts fun _ => True := ⟨h, trivial⟩

theorem atIdent (h : All fit ts) (text : String) : Gives fit (atIdent text) ts fun _ => True :=
  ⟨h, trivial⟩

theorem skip (h : All fit ts) : Gives fit skip ts fun _ => True := ⟨all_tail h, trivial⟩

theorem drop (h : All fit ts) (offset : Nat) :
    Gives fit (modify (List.drop offset)) ts fun _ => True :=
  ⟨fun t ht => h t (List.mem_of_mem_drop ht), trivial⟩

theorem next (h : All fit ts) : Gives fit next ts fit := by
  cases ts with
  | nil => exact h
  | cons t ts => exact ⟨all_tail h, h t (by simp)⟩

theorem expect (h : All fit ts) (text : String) : Gives fit (expect text) ts fun _ => True := by
  refine (next h).bind fun t rest hrest _ => ?_
  by_cases hpunct : t.isPunct text = true
  · simpa [hpunct] using pure hrest trivial
  · simpa [hpunct] using throw hrest

/-- A group is no empty run, since its delimiters belong to it. -/
theorem group (h : All fit ts) : Gives fit group ts fun run => All fit run ∧ run ≠ [] := by
  refine (get h).bind fun us rest hrest hus => ?_
  cases hgroup : Run.group? us with
  | none => exact throw hrest
  | some split =>
      obtain ⟨hrun, hafter⟩ := all_of_append hus (Run.group?_append_eq hgroup)
      exact ⟨hafter, hrun, Run.ne_nil_of_group? hgroup⟩

theorem angles (h : All fit ts) : Gives fit angles ts (All fit) := by
  refine (get h).bind fun us rest hrest hus => ?_
  cases hangles : Run.angles? 0 0 us with
  | none => exact fun t ht => absurd ht (by simp)
  | some split =>
      obtain ⟨hrun, hafter⟩ := all_of_append hus (Run.angles?_append_eq hangles)
      exact ⟨hafter, hrun⟩

/-- What is taken up to the end of a type is no empty run, and it begins with the next token. -/
theorem untilEnd (h : All fit ts) : Gives fit untilEnd ts fun run =>
    All fit run ∧ ∃ t more, run = t :: more ∧ ts.head? = some t := by
  have happend := Run.untilEnd_append 0 0 ts
  obtain ⟨hrun', hafter⟩ := all_of_append h happend
  unfold Gives
  rw [untilEnd_apply]
  cases hrun : (Run.untilEnd 0 0 ts).1 with
  | nil => exact h
  | cons t more =>
      rw [hrun] at happend hrun'
      exact ⟨hafter, hrun', t, more, rfl, by rw [← happend, List.cons_append, List.head?_cons]⟩

theorem within {inner : List Token} (hx : Gives fit x inner post) (h : All fit ts) :
    Gives fit (within inner x) ts post := by
  unfold Gives at hx ⊢
  rw [TokenReader.within]
  cases hrun : x inner with
  | ok a rest =>
      rw [hrun] at hx
      exact ⟨h, hx.2⟩
  | error fault rest => exact h

end Gives

end TokenReader

namespace Reference

open TokenReader

variable {ts : List Token} {fuel : Nat}

/-! ### What types inherit -/

/-- Of tokens that fit only good types are read, which are told apart by whether they are read as the
argument of a path: for every way in which a type is read of its parts, it is good if they are. -/
structure Inherits (fit : Token → Prop) (segment : String → Prop)
    (good : Bool → Reference → Prop) : Prop where
  name : ∀ {t}, fit t → t.kind = .ident → segment t.text
  withArguments : ∀ {s args}, segment s → (∀ a ∈ args, good true a) → segment (segmentText s args)
  path : ∀ {segments s args}, (∀ s ∈ segments, segment s) → segment s → (∀ a ∈ args, good true a) →
    good false { segments := segments ++ [s], args }
  ampersand : ∀ (exclusive : Bool) {lifetime inner},
    (lifetime = "" ∨ ∃ t, fit t ∧ t.kind = .lifetime ∧ t.text = lifetime) → good false inner →
    good false { modifier := ampersand exclusive, args := [inner], lifetime }
  star : ∀ (exclusive : Bool) {inner}, good false inner →
    good false { modifier := star exclusive, args := [inner] }
  tuple : ∀ {args}, (∀ a ∈ args, good false a) → good false { modifier := .tuple, args }
  slice : ∀ {inner}, good false inner → good false { modifier := .slice, args := [inner] }
  array : ∀ {inner run}, good false inner → All fit run → join run ≠ "" →
    good false { modifier := .array, args := [inner], length := join run }
  verbatim : ∀ {t run}, t.kind = .ident ∨ t.kind = .punct → All fit (t :: run) →
    good false (ofText (join (t :: run)))
  expansion : ∀ {segments s body}, (∀ s ∈ segments, segment s) → segment s → All fit body →
    good false (ofText (joinSegments (segments ++ [s]) ++ "!" ++ join body))
  call : ∀ {segments s body}, (∀ s ∈ segments, segment s) → segment s → All fit body →
    good false (ofText (joinSegments (segments ++ [s ++ join body])))
  callTo : ∀ {segments s body result}, (∀ s ∈ segments, segment s) → segment s → All fit body →
    good false result →
    good false (ofText (joinSegments (segments ++ [s ++ join body ++ " -> " ++ render result])))
  argument : ∀ {r}, good false r → good true r
  run : ∀ {run}, All fit run → run ≠ [] → good true (ofText (join run))
  arguments : ∀ {r}, good false r → r.isPath = true → ∀ a ∈ r.args, good true a

namespace Inherits

variable {fit : Token → Prop} {segment : String → Prop} {good : Bool → Reference → Prop}

/-- A type that is one token. -/
theorem single (h : Inherits fit segment good) {t : Token} (ht : fit t)
    (hkind : t.kind = .ident ∨ t.kind = .punct) : good false (ofText t.text) :=
  h.verbatim hkind (List.forall_mem_singleton.mpr ht)

/-- An argument that is one token. -/
theorem word (h : Inherits fit segment good) {t : Token} (ht : fit t) :
    good true (ofText t.text) :=
  h.run (List.forall_mem_singleton.mpr ht) (List.cons_ne_nil t [])

end Inherits

/-! ### Readers -/

variable {fit : Token → Prop} {segment : String → Prop} {good : Bool → Reference → Prop}

/-- With some fuel, every reader makes good types of tokens that fit.  A path goes on after segments
that are as they should be. -/
structure Readers (fit : Token → Prop) (segment : String → Prop) (good : Bool → Reference → Prop)
    (fuel : Nat) : Prop where
  readType : ∀ {ts}, All fit ts → Gives fit (readType fuel) ts (good false)
  readElements : ∀ {ts}, All fit ts →
    Gives fit (readElements fuel) ts fun found => ∀ r ∈ found.1, good false r
  readPath : ∀ {ts segments}, All fit ts → (∀ s ∈ segments, segment s) →
    Gives fit (readPath fuel segments) ts (good false)
  readArguments : ∀ {ts}, All fit ts →
    Gives fit (readArguments fuel) ts fun args => ∀ a ∈ args, good true a

theorem readers_zero : Readers fit segment good 0 :=
  ⟨Gives.throw, Gives.throw, fun h _ => Gives.throw h, Gives.throw⟩

theorem readElements_gives (h : Readers fit segment good fuel) (hts : All fit ts) :
    Gives fit (readElements (fuel + 1)) ts fun found => ∀ r ∈ found.1, good false r := by
  unfold readElements
  refine (Gives.atEnd hts).bind fun atEnd us hus _ => ?_
  cases atEnd
  · refine (h.readType hus).bind fun r us hus hr => ?_
    refine (Gives.atEnd hus).bind fun atEnd us hus _ => ?_
    cases atEnd
    · refine (Gives.expect hus ",").bind fun _ us hus _ => ?_
      refine (h.readElements hus).bind fun found us hus hfound => ?_
      exact Gives.pure hus (by simpa using ⟨hr, hfound⟩)
    · exact Gives.pure hus (by simpa using hr)
  · exact Gives.pure hus (by simp)

theorem readLifetime_gives (hts : All fit ts) : Gives fit readLifetime ts fun l =>
    l = "" ∨ ∃ t, fit t ∧ t.kind = .lifetime ∧ t.text = l := by
  unfold readLifetime
  cases ts with
  | nil => exact Gives.pure hts (Or.inl rfl)
  | cons t ts =>
      refine Gives.peek?_cons ?_
      by_cases hkind : (t.kind == .lifetime) = true
      · simp only [hkind, if_true]
        exact (Gives.skip hts).bind fun _ us hus _ =>
          Gives.pure hus (Or.inr ⟨t, hts t (by simp), eq_of_beq hkind, rfl⟩)
      · simp only [hkind]
        exact Gives.pure hts (Or.inl rfl)

/-- A type that is taken as its text up to its end. -/
theorem verbatim_gives (hgood : Inherits fit segment good) (hts : All fit (t :: ts))
    (hkind : t.kind = .ident ∨ t.kind = .punct) :
    Gives fit (do return ofText (join (← untilEnd))) (t :: ts) (good false) := by
  refine (Gives.untilEnd hts).bind fun run us hus hrun => ?_
  obtain ⟨hall, first, more, rfl, hfirst⟩ := hrun
  obtain rfl : t = first := by simpa using hfirst
  exact Gives.pure hus (hgood.verbatim hkind hall)

theorem readType_gives (hgood : Inherits fit segment good) (h : Readers fit segment good fuel)
    (hts : All fit ts) : Gives fit (readType (fuel + 1)) ts (good false) := by
  unfold readType
  cases ts with
  | nil => exact hts
  | cons t ts =>
      refine Gives.peek?_cons ?_
      dsimp only
      split
      · refine (Gives.skip hts).bind fun _ us hus _ => ?_
        refine (readLifetime_gives hus).bind fun l us hus hl => ?_
        refine (Gives.atIdent hus "mut").bind fun exclusive us hus _ => ?_
        cases exclusive
        · refine (h.readType hus).bind fun inner us hus hinner => ?_
          exact Gives.pure hus (hgood.ampersand false hl hinner)
        · refine (Gives.skip hus).bind fun _ us hus _ => ?_
          refine (h.readType hus).bind fun inner us hus hinner => ?_
          exact Gives.pure hus (hgood.ampersand true hl hinner)
      split
      · refine (Gives.skip hts).bind fun _ us hus _ => ?_
        refine (Gives.next hus).bind fun qualifier us hus _ => ?_
        split
        · refine (h.readType hus).bind fun inner us hus hinner => ?_
          exact Gives.pure hus (hgood.star false hinner)
        split
        · refine (h.readType hus).bind fun inner us hus hinner => ?_
          exact Gives.pure hus (hgood.star true hinner)
        · exact Gives.throw hus
      split
      · refine (Gives.group hts).bind fun run us hus hrun => ?_
        refine (Gives.within (h.readElements (all_inside hrun.1)) hus).bind
          fun found us hus hfound => ?_
        obtain ⟨elements, trailing⟩ := found
        dsimp only
        split
        · exact Gives.pure hus (by simpa using hfound)
        · exact Gives.pure hus (hgood.tuple hfound)
      split
      · refine (Gives.group hts).bind fun run us hus hrun => ?_
        refine Gives.within ?_ hus
        refine (h.readType (all_inside hrun.1)).bind fun element us hus helement => ?_
        refine (Gives.atEnd hus).bind fun atEnd us hus _ => ?_
        cases atEnd
        · refine (Gives.expect hus ";").bind fun _ us hus _ => ?_
          refine (Gives.get hus).bind fun rest us hus hrest => ?_
          split
          · exact Gives.throw_bind hus
          · rename_i hlength
            exact Gives.pure hus (hgood.array helement hrest hlength)
        · exact Gives.pure hus (hgood.slice helement)
      split
      · rename_i hangle
        exact verbatim_gives hgood hts (Or.inr (kind_of_isPunct hangle))
      split
      · rename_i hmark
        refine (Gives.skip hts).bind fun _ us hus _ =>
          Gives.pure hus (hgood.single (hts t (by simp)) ?_)
        rcases Bool.or_eq_true_iff.mp hmark with hpunct | hident
        · exact Or.inr (kind_of_isPunct hpunct)
        · exact Or.inl (kind_of_isIdent hident)
      split
      · rename_i hstart
        rw [Bool.and_eq_true] at hstart
        exact verbatim_gives hgood hts (Or.inl (eq_of_beq hstart.1))
      split
      · exact (Gives.skip hts).bind fun _ us hus _ => h.readPath hus (by simp)
      split
      · exact h.readPath hts (by simp)
      · exact Gives.throw hts

theorem readPath_gives (hgood : Inherits fit segment good) (h : Readers fit segment good fuel)
    {segments : List String} (hts : All fit ts) (hsegments : ∀ s ∈ segments, segment s) :
    Gives fit (readPath (fuel + 1) segments) ts (good false) := by
  unfold readPath
  refine (Gives.next hts).bind fun t us hus ht => ?_
  -- the parts of the reader that it comes to in more than one way
  extract_lets expand finish goOn body
  by_cases hkind : (t.kind == .ident) = true
  · have hname : segment t.text := hgood.name ht (eq_of_beq hkind)
    have hfinish : ∀ args us, All fit us → (∀ a ∈ args, good true a) →
        Gives fit (finish args) us (good false) := by
      intro args us hus hargs
      refine (Gives.atPunct hus "::" 0).bind fun colons us hus _ => ?_
      refine (Gives.get hus).bind fun next us hus _ => ?_
      split
      · refine (Gives.skip hus).bind fun _ us hus _ => h.readPath hus ?_
        intro s hs
        rcases List.mem_append.mp hs with hs | hs
        · exact hsegments s hs
        · rw [List.mem_singleton.mp hs]
          exact hgood.withArguments hname hargs
      · exact Gives.pure hus (hgood.path hsegments hname hargs)
    have hgoOn : ∀ u us, All fit us → Gives fit (goOn u) us (good false) := by
      intro _ us hus
      refine (Gives.atPunct hus "<" 0).bind fun angle us hus _ => ?_
      split
      · refine (Gives.skip hus).bind fun _ us hus _ => ?_
        exact (h.readArguments hus).bind hfinish
      · exact hfinish [] us hus (by simp)
    rw [if_pos hkind]
    refine (Gives.atPunct hus "!" 0).bind fun isMacro us hus _ => ?_
    split
    · refine (Gives.skip hus).bind fun _ us hus _ => ?_
      refine (Gives.peek? hus).bind fun next us hus _ => ?_
      split
      · exact (Gives.group hus).bind fun run us hus hrun =>
          Gives.pure hus (hgood.expansion hsegments hname hrun.1)
      · exact Gives.throw_bind hus
    refine (Gives.atPunct hus "(" 0).bind fun isCall us hus _ => ?_
    split
    · refine (Gives.group hus).bind fun run us hus hrun => ?_
      refine (Gives.atPunct hus "->" 0).bind fun hasResult us hus _ => ?_
      split
      · refine (Gives.skip hus).bind fun _ us hus _ => ?_
        exact (h.readType hus).bind fun result us hus hresult =>
          Gives.pure hus (hgood.callTo hsegments hname hrun.1 hresult)
      · exact Gives.pure hus (hgood.call hsegments hname hrun.1)
    refine (Gives.atPunct hus "::" 0).bind fun colons us hus _ => ?_
    refine (Gives.atPunct hus "<" 1).bind fun angle us hus _ => ?_
    split
    · exact (Gives.skip hus).bind fun _ us hus _ => hgoOn () us hus
    · exact hgoOn () us hus
  · rw [if_neg hkind]
    exact Gives.throw_bind hus

theorem readArguments_gives (hgood : Inherits fit segment good) (h : Readers fit segment good fuel)
    (hts : All fit ts) :
    Gives fit (readArguments (fuel + 1)) ts fun args => ∀ a ∈ args, good true a := by
  unfold readArguments
  refine (Gives.atPunct hts ">" 0).bind fun close us hus _ => ?_
  split
  · exact (Gives.skip hus).bind fun _ us hus _ => Gives.pure hus (by simp)
  have hhead : ∀ t ∈ us.head?, fit t := fun t ht => hus t (List.mem_of_mem_head? ht)
  refine (show Gives fit peek? us fun next => ∀ t ∈ next, fit t from ⟨hus, hhead⟩).bind
    fun next us hus hnext => ?_
  extract_lets goOn
  have hgoOn : ∀ argument us, All fit us → good true argument →
      Gives fit (goOn argument) us fun args => ∀ a ∈ args, good true a := by
    intro argument us hus hargument
    refine (Gives.atPunct hus "," 0).bind fun comma us hus _ => ?_
    extract_lets finish
    have hfinish : ∀ u us, All fit us →
        Gives fit (finish u) us fun args => ∀ a ∈ args, good true a := by
      intro _ us hus
      refine (h.readArguments hus).bind fun args us hus hargs => Gives.pure hus ?_
      simpa using ⟨hargument, hargs⟩
    split
    · exact (Gives.skip hus).bind fun _ us hus _ => hfinish () us hus
    refine (Gives.atPunct hus ">" 0).bind fun close us hus _ => ?_
    split
    · exact hfinish () us hus
    refine (Gives.peek? hus).bind fun found us hus _ => ?_
    cases found with
    | none => exact Gives.throw_bind hus
    | some t => exact Gives.throw_bind hus
  cases next with
  | none => exact Gives.throw_bind hus
  | some t =>
      dsimp only
      split
      · exact (Gives.skip hus).bind fun _ us hus _ => hgoOn _ us hus (hgood.word (hnext t rfl))
      split
      · exact (Gives.group hus).bind fun _ us hus hrun => hgoOn _ us hus (hgood.run hrun.1 hrun.2)
      refine (Gives.atPunct hus "=" 1).bind fun equals us hus _ => ?_
      refine (Gives.atPunct hus ":" 1).bind fun colon us hus _ => ?_
      split
      · refine (Gives.next hus).bind fun name us hus hname => ?_
        refine (Gives.next hus).bind fun separator us hus hseparator => ?_
        refine (Gives.untilEnd hus).bind fun bound us hus hbound => hgoOn _ us hus (hgood.run ?_ (by simp))
        exact List.forall_mem_cons.mpr ⟨hname, List.forall_mem_cons.mpr ⟨hseparator, hbound.1⟩⟩
      · exact (h.readType hus).bind fun r us hus hr => hgoOn r us hus (hgood.argument hr)

theorem readers (hgood : Inherits fit segment good) (fuel : Nat) :
    Readers fit segment good fuel := by
  induction fuel with
  | zero => exact readers_zero
  | succ fuel ih =>
      exact ⟨readType_gives hgood ih, readElements_gives ih, readPath_gives hgood ih,
        readArguments_gives hgood ih⟩

/-- **Only good types are read of tokens that fit.** -/
theorem reader_gives (hgood : Inherits fit segment good) (hts : All fit ts) :
    Gives fit reader ts (good false) := by
  have hread := (readers hgood (3 * (ts.length + 1))).readType hts
  unfold Gives at hread ⊢
  rw [reader]
  exact hread

theorem good_of_parse (hgood : Inherits fit segment good) {text : String} {r : Reference}
    (htokens : ∀ ts, tokenize text = .ok ts → All fit ts) (h : parse text = .ok r) :
    good false r := by
  unfold parse at h
  split at h
  · cases h
  · rename_i us hlex
    have hread := reader_gives hgood (htokens us hlex)
    unfold Gives at hread
    unfold ofTokens at h
    cases hrun : reader us with
    | error fault rest => simp [hrun] at h
    | ok s rest =>
        rw [hrun] at h hread
        cases rest with
        | nil =>
            obtain rfl : s = r := by simpa using h
            exact hread.2
        | cons t rest => simp at h

/-! ### Sound types -/

theorem opens_join {t : Token} (ht : Opens t.text) (ts : List Token) : Opens (join (t :: ts)) := by
  cases ts with
  | nil => exact ht
  | cons u ts => exact (ht.append _).append _

/-- The text of a token that is no lifetime or literal does not start with a quote. -/
theorem opens_of_kind {t : Token} (h : t.Fits) (hkind : t.kind = .ident ∨ t.kind = .punct) :
    Opens t.text := by
  rw [Token.Fits] at h
  rcases hkind with hkind | hkind <;> rwa [hkind] at h

theorem opens_segmentText {segment : String} (h : Opens segment) (args : List Reference) :
    Opens (segmentText segment args) := by
  unfold segmentText
  split
  · exact h
  · exact ((h.append _).append _).append _

/-- The text of a path with one more segment opens like the path. -/
theorem opens_joinSegments {segments : List String} (h : ∀ s ∈ segments, Opens s)
    {segment : String} (hlast : Opens segment) : Opens (joinSegments (segments ++ [segment])) := by
  cases segments with
  | nil => exact hlast.intercalate _ []
  | cons first more => exact (h first (by simp)).intercalate _ (more ++ [segment])

theorem sound_append {segments : List String} (h : ∀ s ∈ segments, Opens s)
    {segment : String} (hlast : Opens segment) {args : List Reference}
    (hargs : ∀ a ∈ args, Sound true a) :
    Sound false { segments := segments ++ [segment], args } := by
  cases segments with
  | nil => exact .path hlast hargs
  | cons first more => exact .path (h first (by simp)) hargs

/-- **What is read of tokens whose texts fit is sound.** -/
theorem inherits_sound : Inherits Token.Fits Opens Sound where
  name ht hkind := opens_of_kind ht (Or.inl hkind)
  withArguments hs _ := opens_segmentText hs _
  path hsegments hs hargs := sound_append hsegments hs hargs
  ampersand exclusive lifetime inner hlifetime hinner := by
    refine .ampersand exclusive (hlifetime.imp_right fun h => ?_) hinner
    obtain ⟨t, ht, hkind, rfl⟩ := h
    rwa [Token.Fits, hkind] at ht
  star exclusive _ hinner := .star exclusive hinner
  tuple hargs := .tuple hargs
  slice hinner := .slice hinner
  array hinner _ _ := .array hinner
  verbatim hkind hts := .verbatim fun _ => opens_join (opens_of_kind (hts _ (by simp)) hkind) _
  expansion hsegments hs _ :=
    .verbatim fun _ => ((opens_joinSegments hsegments hs).append _).append _
  call hsegments hs _ := .verbatim fun _ => opens_joinSegments hsegments (hs.append _)
  callTo hsegments hs _ _ :=
    .verbatim fun _ => opens_joinSegments hsegments (((hs.append _).append _).append _)
  argument h := h.toArgument
  run _ _ := .verbatim (by simp)
  arguments h hpath := hpath ▸ h.args

theorem sound_of_parse {text : String} {r : Reference} (h : parse text = .ok r) :
    Sound false r := good_of_parse inherits_sound (fun _ => allFit_of_tokenize) h

end Reference

end ConversionClosure
