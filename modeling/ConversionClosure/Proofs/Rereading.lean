/-
Tokens of which a type is read again.

`Restores greedy run us r` says that `us` are tokens of the text of `r`, which was read of `run`, and
that `r` is read again of them, in front of whatever may stand behind a type.  They are not the run
itself: parentheses around a type, the mark in front of a path and the one in front of its arguments
are not written.  A greedy type is one whose text leaves an angle bracket open, so that it takes all
that follows.

There is one lemma for each form that a type is read in.  An argument of a path is a type or a form
of its own, and it is read again where a comma or the closing angle bracket follows.
-/
import ConversionClosure.Proofs.Passing
import ConversionClosure.Proofs.Simple

namespace ConversionClosure

open Text Token

namespace Reference

open TokenReader

variable {fuel l l' : Nat} {ts us vs run inner rest : List Token} {t u o c : Token} {k : Bracket}
  {r a result : Reference} {args as : List Reference} {greedy trailing : Bool}

/-! ### Single arguments -/

/-- Reads one argument of a path. -/
def readArgument (fuel : Nat) : TokenReader Reference := do
  match ← peek? with
  | none => throw .openArguments
  | some t =>
    if t.kind == .lifetime || t.kind == .literal then
      skip
      pure (ofText t.text)
    else if t.isPunct (Bracket.opener .curly) then pure (ofText (join (← group)))
    else if t.kind == .ident && ((← atPunct "=" 1) || (← atPunct ":" 1)) then
      let name ← next
      let separator ← next
      let bound ← untilEnd
      pure (ofText (join (name :: separator :: bound)))
    else readType fuel

/-- Arguments are read one at a time. -/
theorem readArguments_succ (fuel : Nat) : readArguments (fuel + 1) = (do
    if ← atPunct ">" 0 then
      skip
      return []
    else moreArguments fuel (← readArgument fuel)) := by
  rw [readArguments]
  unfold readArgument moreArguments
  simp only [bind_assoc]
  congr 1
  funext close
  split
  · rfl
  · congr 1
    funext next
    cases next with
    | none => rfl
    | some t =>
        dsimp only
        split
        · rfl
        split
        · exact (bind_assoc _ _ _).symm
        · simp only [bind_assoc]
          congr 1
          funext equals
          congr 1
          funext colon
          split
          · refine Eq.symm ((bind_assoc _ _ _).trans (bind_congr fun name => ?_))
            exact (bind_assoc _ _ _).trans (bind_congr fun separator => bind_assoc _ _ _)
          · rfl

/-- A comma or the closing angle bracket follows. -/
def Closes (rest : List Token) : Prop :=
  ∃ l more, rest = mark l "," :: more ∨ rest = mark l ">" :: more

theorem Closes.ends (h : Closes rest) : Ends rest := by
  obtain ⟨l, more, rfl | rfl⟩ := h
  · exact ends_mark (by simp)
  · exact ends_mark (by simp)

theorem Closes.ne_nil (h : Closes rest) : rest ≠ [] := by
  obtain ⟨l, more, rfl | rfl⟩ := h <;> simp

theorem readArguments_comma (ht : t.isPunct ">" = false)
    (hread : readArgument fuel (t :: ts) = .ok a (mark l "," :: us))
    (hmore : readArguments fuel us = .ok as rest) :
    readArguments (fuel + 1) (t :: ts) = .ok (a :: as) rest := by
  rw [readArguments_succ]
  simp [ht, hread, moreArguments, hmore]

theorem readArguments_last (ht : t.isPunct ">" = false)
    (hread : readArgument (fuel + 1) (t :: ts) = .ok a (mark l ">" :: rest)) :
    readArguments (fuel + 2) (t :: ts) = .ok [a] rest := by
  rw [readArguments_succ]
  simp [ht, hread, moreArguments, readArguments_close]

theorem readArgument_word (ht : t.kind = .lifetime ∨ t.kind = .literal) :
    readArgument fuel (t :: ts) = .ok (ofText t.text) ts := by
  unfold readArgument
  simp [ht]

theorem readArgument_braces (ho : o.opens? = some .curly) (hc : c.closes? = some .curly)
    (hinner : Balanced inner) : readArgument fuel (o :: (inner ++ c :: rest)) =
      .ok (ofText (join (o :: (inner ++ [c])))) rest := by
  have hgroup : group (o :: (inner ++ c :: rest)) = .ok (o :: (inner ++ [c])) rest :=
    group_balanced ho hc hinner
  obtain ⟨l, rfl⟩ := eq_mark_of_opens? ho
  unfold readArgument
  simp [hgroup]

theorem readArgument_binding (ht : t.kind = .ident)
    (hu : u.isPunct "=" = true ∨ u.isPunct ":" = true) (hrun : untilEnd ts = .ok run rest) :
    readArgument fuel (t :: u :: ts) = .ok (ofText (join (t :: u :: run))) rest := by
  have hcurly : t.isPunct (Bracket.opener .curly) = false := isPunct_of_kind (by simp [ht]) _
  unfold readArgument
  simp [ht, hu, hcurly, hrun]

/-- The token begins a type as it is written. -/
def Heads (t : Token) : Prop :=
  t.kind = .ident ∨ t.kind = .punct ∧ t.text ∈ ["&", "*", "(", "[", "<", "!"]

theorem Heads.isPunct {text : String} (h : Heads t)
    (htext : text ∉ ["&", "*", "(", "[", "<", "!"]) : t.isPunct text = false := by
  rw [Token.isPunct, Bool.and_eq_false_iff, beq_eq_false_iff_ne, beq_eq_false_iff_ne]
  rcases h with hkind | ⟨-, hmem⟩
  · exact .inl (by simp [hkind])
  · refine .inr fun heq => htext ?_
    rwa [heq] at hmem

theorem Heads.kind_ne (h : Heads t) : t.kind ≠ .lifetime ∧ t.kind ≠ .literal := by
  rcases h with hkind | ⟨hkind, -⟩ <;> simp [hkind]

/-- An argument that is no binding is read as a type. -/
theorem readArgument_type (ht : Heads t)
    (hbinding : t.kind = .ident → ∀ u ∈ ts.head?, u.isPunct "=" = false ∧ u.isPunct ":" = false) :
    readArgument fuel (t :: ts) = readType fuel (t :: ts) := by
  have hcurly : t.isPunct (Bracket.opener .curly) = false := ht.isPunct (by simp [Bracket.opener])
  unfold readArgument
  cases ts with
  | nil => simp [ht.kind_ne, hcurly]
  | cons u ts =>
      have hnone : ¬ (t.kind = .ident ∧ (u.isPunct "=" = true ∨ u.isPunct ":" = true)) := by
        rintro ⟨hkind, hu⟩
        simp [hbinding hkind u rfl] at hu
      simp [ht.kind_ne, hcurly, hnone]

/-! ### Types -/

/-- The reference was read of `run`, and `us` are the tokens of its text: it is read again of them,
as a type and as an argument.  A type that is read of a name and a colon alone is no argument, where
these begin a binding. -/
structure Restores (greedy : Bool) (run us : List Token) (r : Reference) : Prop where
  balanced : Balanced us
  leads : ∃ t more, us = t :: more ∧ Heads t ∧
    (t.isIdent "mut" = true → run.head?.any (·.isIdent "mut") = true)
  read : ∀ fuel rest, Ends rest → (greedy = true → rest = []) → 3 * us.length ≤ fuel →
    readType fuel (us ++ rest) = .ok r rest
  argument : greedy = false → (∀ t u, run = [t, u] → t.kind = .ident → u.isPunct ":" = false) →
    ∀ fuel rest, Closes rest → 3 * us.length ≤ fuel →
      readArgument fuel (us ++ rest) = .ok r rest

namespace Restores

theorem ne_nil (h : Restores greedy run us r) : us ≠ [] := by
  obtain ⟨t, more, rfl, -⟩ := h.leads
  exact List.cons_ne_nil t more

/-- A type that no binding looks like is read as an argument too. -/
theorem of_read (hbalanced : Balanced (t :: ts)) (ht : Heads t)
    (hmut : t.isIdent "mut" = true → run.head?.any (·.isIdent "mut") = true)
    (hbinding : t.kind = .ident → ∀ rest, Ends rest →
      ∀ u ∈ (ts ++ rest).head?, u.isPunct "=" = false ∧ u.isPunct ":" = false)
    (hread : ∀ fuel rest, Ends rest → (greedy = true → rest = []) → 3 * (t :: ts).length ≤ fuel →
      readType fuel (t :: ts ++ rest) = .ok r rest) :
    Restores greedy run (t :: ts) r where
  balanced := hbalanced
  leads := ⟨t, ts, rfl, ht, hmut⟩
  read := hread
  argument := by
    intro hgreedy _ fuel rest hrest hfuel
    rw [List.cons_append, readArgument_type ht fun hkind => hbinding hkind rest hrest.ends]
    exact hread fuel rest hrest.ends (by simp [hgreedy]) hfuel

/-- A form that begins with a mark. -/
theorem of_mark {text : String} (htext : text ∈ ["&", "*", "(", "[", "<", "!"])
    (hbalanced : Balanced (mark l text :: ts))
    (hread : ∀ fuel rest, Ends rest → (greedy = true → rest = []) → 3 * (ts.length + 1) ≤ fuel + 1 →
      readType (fuel + 1) (mark l text :: (ts ++ rest)) = .ok r rest) :
    Restores greedy run (mark l text :: ts) r := by
  refine of_read hbalanced (.inr ⟨rfl, htext⟩) (by simp) (by simp) ?_
  intro fuel rest hrest hgreedy hfuel
  rw [List.length_cons] at hfuel
  obtain ⟨fuel, rfl⟩ : ∃ n, fuel = n + 1 := ⟨fuel - 1, by omega⟩
  exact hread fuel rest hrest hgreedy hfuel

theorem ampersand {run' : List Token} {lifetime : String} {exclusive : Bool}
    (h : Restores greedy run us r)
    (hmut : exclusive = false → run.head?.any (·.isIdent "mut") = false) :
    Restores greedy run' (mark l "&" :: (lifetimeTokens l lifetime ++
        if exclusive then name l "mut" :: us else us))
      { modifier := Reference.ampersand exclusive, args := [r], lifetime } := by
  obtain ⟨t, more, hus, ht, hname⟩ := h.leads
  have hbalanced : Balanced (if exclusive then name l "mut" :: us else us) := by
    cases exclusive with
    | false => exact h.balanced
    | true => exact .inner isInner_name h.balanced
  refine of_mark (by simp) (.inner (isInner_mark rfl rfl)
    (balanced_lifetimeTokens.append hbalanced)) ?_
  intro fuel rest hrest hgreedy hfuel
  rw [List.length_append] at hfuel
  rw [List.append_assoc]
  cases exclusive with
  | false =>
      have hread := h.read fuel rest hrest hgreedy (by simp at hfuel; omega)
      have hnone : t.isIdent "mut" = false := by
        rw [Bool.eq_false_iff]
        exact fun hident => by simp [hname hident] at hmut
      refine readType_shared ?_ ?_ hread
      · simp [hus, ht.kind_ne]
      · simp [hus, hnone]
  | true =>
      have hread := h.read fuel rest hrest hgreedy (by simp at hfuel; omega)
      exact readType_exclusive hread

theorem star {run' : List Token} {exclusive : Bool} (h : Restores greedy run us r) :
    Restores greedy run' (mark l "*" :: name l (starWord exclusive) :: us)
      { modifier := Reference.star exclusive, args := [r] } := by
  refine of_mark (by simp) (.inner (isInner_mark rfl rfl) (.inner isInner_name h.balanced)) ?_
  intro fuel rest hrest hgreedy hfuel
  rw [List.length_cons] at hfuel
  exact readType_star (h.read fuel rest hrest hgreedy (by omega))

theorem slice {run' : List Token} (h : Restores greedy run us r) :
    Restores false run' (mark l "[" :: (us ++ [mark l' "]"]))
      { modifier := .slice, args := [r] } := by
  refine of_mark (by simp) (.bracketed rfl rfl h.balanced) ?_
  intro fuel rest hrest _ hfuel
  rw [List.length_append] at hfuel
  have hread := h.read fuel [] ends_nil (by simp) (by omega)
  rw [List.append_nil] at hread
  rw [List.append_assoc]
  exact readType_slice h.balanced hread

theorem array {run' : List Token} {mid : Nat} (h : Restores false run us r) (hvs : Balanced vs)
    (hlength : join vs ≠ "") :
    Restores false run' (mark l "[" :: (us ++ mark mid ";" :: vs ++ [mark l' "]"]))
      { modifier := .array, args := [r], length := join vs } := by
  have hinner : Balanced (us ++ mark mid ";" :: vs) :=
    h.balanced.append (.inner (isInner_mark rfl rfl) hvs)
  refine of_mark (by simp) (.bracketed rfl rfl hinner) ?_
  intro fuel rest hrest _ hfuel
  simp only [List.length_append, List.length_cons] at hfuel
  have hread := h.read fuel (mark mid ";" :: vs) (ends_mark (by simp)) (by simp) (by omega)
  rw [List.append_assoc]
  exact readType_array hinner hread hlength

/-- Elements in parentheses; a single one has a comma behind it. -/
theorem tuple {run' : List Token} (hus : Balanced us)
    (hread : ∀ fuel, 3 * (us.length + 1) ≤ fuel → readElements fuel us = .ok (args, trailing) [])
    (hone : args.length = 1 → trailing = true) :
    Restores false run' (mark l "(" :: (us ++ [mark l' ")"])) { modifier := .tuple, args } := by
  refine of_mark (by simp) (.bracketed rfl rfl hus) ?_
  intro fuel rest hrest _ hfuel
  rw [List.length_append, List.length_singleton] at hfuel
  rw [List.append_assoc]
  exact readType_tuple hus (hread fuel (by omega)) hone

/-- The type is not written in the parentheses that it was read in. -/
theorem grouped (h : Restores false run us r) (hmut : run.head?.any (·.isIdent "mut") = false)
    (hcolon : ∀ t u, run = [t, u] → t.kind = .ident → u.isPunct ":" = false) :
    Restores false (o :: (run ++ [c])) us r where
  balanced := h.balanced
  leads := by
    obtain ⟨t, more, hus, ht, hname⟩ := h.leads
    exact ⟨t, more, hus, ht, fun hident => by simp [hname hident] at hmut⟩
  read := h.read
  argument hgreedy _ := h.argument hgreedy hcolon

end Restores

/-! ### Types that are kept as their text -/

/-- The token begins a type that is kept as its text. -/
def Keeps (t : Token) : Prop :=
  t.isPunct "<" = true ∨ t.kind = .ident ∧ t.text ∈ verbatimStarts

theorem Keeps.heads (h : Keeps t) : Heads t := by
  rcases h with hmark | ⟨hkind, -⟩
  · obtain ⟨l, rfl⟩ := exists_mark hmark
    exact .inr ⟨rfl, by simp⟩
  · exact .inl hkind

theorem readType_keeps (h : Keeps t) (hrun : untilEnd (t :: ts) = .ok run rest) :
    readType (fuel + 1) (t :: ts) = .ok (ofText (join run)) rest := by
  rcases h with hmark | ⟨hkind, htext⟩
  · obtain ⟨l, rfl⟩ := exists_mark hmark
    rw [readType]
    simp [hrun]
  · obtain ⟨kind, text, l⟩ := t
    obtain rfl : kind = .ident := hkind
    have hname : ({ kind := .ident, text, line := l } : Token) = name l text := rfl
    have hblank : text ≠ "_" := by
      rintro rfl
      simp [verbatimStarts] at htext
    rw [hname] at hrun ⊢
    rw [readType]
    simp [hblank, htext, hrun]

/-- A type that is kept as its text is read as an argument too.  With a colon behind its first word it
is a name and a bound, so that the bound must not be empty. -/
theorem readArgument_keeps (ht : Keeps t) (hpasses : Passes 0 (t :: ts) 0)
    (hcolon : t.kind = .ident → ∀ l, ts ≠ [mark l ":"]) (hrest : Closes rest) :
    readArgument (fuel + 1) (t :: (ts ++ rest)) = .ok (ofText (join (t :: ts))) rest := by
  by_cases hbinding : t.kind = .ident ∧ ∃ u ∈ ts.head?, u.isPunct ":" = true
  · obtain ⟨hkind, u, hu, hmark⟩ := hbinding
    obtain ⟨l, rfl⟩ := exists_mark hmark
    obtain ⟨us, rfl⟩ := List.head?_eq_some_iff.mp hu
    have hbound : us ≠ [] := fun hnil => hcolon hkind l (hnil ▸ rfl)
    have hpasses' := (hpasses.of_word (by simp [hkind])).of_colon
    exact readArgument_binding hkind (.inr rfl)
      (untilEnd_append hpasses' hbound hrest.ends (by simp))
  · rw [readArgument_type ht.heads]
    · exact readType_keeps ht (untilEnd_append hpasses (by simp) hrest.ends (by simp))
    · intro hkind u hu
      cases ts with
      | nil =>
          obtain ⟨l, more, rfl | rfl⟩ := hrest
          · cases hu
            exact ⟨rfl, rfl⟩
          · cases hu
            exact ⟨rfl, rfl⟩
      | cons v ts =>
          obtain rfl : v = u := by simpa using hu
          have hend := (hpasses.of_word (by simp [hkind])).endsType_eq_false
          simp only [Run.endsType, Bool.or_eq_false_iff] at hend
          refine ⟨hend.1.1.1.2, ?_⟩
          rw [Bool.eq_false_iff]
          exact fun hmark => hbinding ⟨hkind, v, rfl, hmark⟩

theorem Restores.kept {left : Nat} (ht : Keeps t) (hpasses : Passes 0 (t :: ts) left)
    (halike : Alike (t :: ts) us) :
    Restores (left != 0) (t :: ts) us (ofText (join (t :: ts))) := by
  have hpasses' := hpasses.alike halike
  have hjoin := halike.join_eq
  obtain ⟨line, vs, rfl, hvs⟩ := halike.exists_cons
  have ht' : Keeps { t with line } := ht
  rw [← hjoin]
  refine ⟨hpasses'.balanced, ⟨_, vs, rfl, ht'.heads, fun hident => hident⟩, ?_, ?_⟩
  · intro fuel rest hrest hgreedy hfuel
    obtain ⟨fuel, rfl⟩ : ∃ n, fuel = n + 1 := ⟨fuel - 1, by rw [List.length_cons] at hfuel; omega⟩
    exact readType_keeps ht' (untilEnd_append hpasses' (by simp) hrest (by simpa using hgreedy))
  · intro hgreedy hcolon fuel rest hrest hfuel
    obtain ⟨fuel, rfl⟩ : ∃ n, fuel = n + 1 := ⟨fuel - 1, by rw [List.length_cons] at hfuel; omega⟩
    obtain rfl : left = 0 := by simpa using hgreedy
    refine readArgument_keeps ht' hpasses' (fun hkind l hnil => ?_) hrest
    subst hnil
    obtain ⟨u, us, ⟨l', hlike⟩, hus, rfl⟩ := List.forall₂_cons_right_iff.mp hvs
    obtain rfl := List.forall₂_nil_right_iff.mp hus
    have hmark : u.isPunct ":" = (mark l ":").isPunct ":" := by rw [hlike]; rfl
    rw [hcolon t u rfl hkind] at hmark
    cases hmark

/-- A type that is one token: a mark or a name of its own. -/
theorem Restores.single {line : Nat} (ht : t.isPunct "!" = true ∨ t.isIdent "_" = true) :
    Restores false [t] [{ t with line }] (ofText t.text) := by
  have hinner : IsInner { t with line } := by
    rcases ht with hmark | hname
    · obtain ⟨l, rfl⟩ := exists_mark hmark
      exact isInner_mark rfl rfl
    · exact isInner_of_kind_ne (by simp [kind_of_isIdent hname])
  have hheads : Heads { t with line } := by
    rcases ht with hmark | hname
    · obtain ⟨l, rfl⟩ := exists_mark hmark
      exact .inr ⟨rfl, by simp⟩
    · exact .inl (kind_of_isIdent hname)
  refine of_read (.singleton hinner) hheads (by simp [Token.isIdent]) ?_ ?_
  · intro _ rest hrest u hu
    have hfollows := hrest.follows u hu
    exact ⟨hfollows _ (by simp), hfollows _ (by simp)⟩
  · intro fuel rest _ _ hfuel
    obtain ⟨fuel, rfl⟩ : ∃ n, fuel = n + 1 := ⟨fuel - 1, by simp at hfuel; omega⟩
    rcases ht with hmark | hname
    · obtain ⟨l, rfl⟩ := exists_mark hmark
      show readType (fuel + 1) (mark line "!" :: rest) = _
      rw [readType]
      simp
    · obtain ⟨kind, text, l⟩ := t
      rw [Token.isIdent, Bool.and_eq_true] at hname
      obtain rfl : kind = .ident := eq_of_beq hname.1
      obtain rfl : text = "_" := eq_of_beq hname.2
      show readType (fuel + 1) (name line "_" :: rest) = _
      rw [readType]
      simp

/-! ### Paths -/

variable {done segments : List String} {segment : String} {k k' : Nat}

theorem readPath_segment {next : String}
    (hargs : readArguments fuel ts = .ok args (mark k "::" :: name k' next :: rest)) :
    readPath (fuel + 1) done (name l segment :: mark l' "<" :: ts) =
      readPath fuel (done ++ [segmentText segment args]) (name k' next :: rest) := by
  rw [readPath]
  simp [hargs]

theorem readPath_macro {b : Bracket} (ho : o.opens? = some b) (hc : c.closes? = some b)
    (hinner : Balanced inner) :
    readPath (fuel + 1) done (name l segment :: mark l' "!" :: o :: (inner ++ c :: rest)) =
      .ok (ofText (joinSegments (done ++ [segment]) ++ "!" ++ join (o :: (inner ++ [c]))))
        rest := by
  have hgroup : group (o :: (inner ++ c :: rest)) = .ok (o :: (inner ++ [c])) rest :=
    group_balanced ho hc hinner
  rw [readPath]
  simp [hgroup, isOpener_of_opens? ho]

/-- Behind the parentheses of a call the type may go on with an arrow. -/
theorem readPath_parentheses (ho : o.isPunct "(" = true) (hc : c.closes? = some .round)
    (hinner : Balanced inner) :
    readPath (fuel + 1) done (name l segment :: o :: (inner ++ c :: rest)) =
      (do
        if ← atPunct "->" 0 then
          skip
          let result ← readType fuel
          return ofText (joinSegments
            (done ++ [segment ++ join (o :: (inner ++ [c])) ++ " -> " ++ render result]))
        else return ofText (joinSegments (done ++ [segment ++ join (o :: (inner ++ [c]))])) :
          TokenReader Reference) rest := by
  obtain ⟨l, rfl⟩ := exists_mark ho
  have hgroup : group (mark l "(" :: (inner ++ c :: rest)) =
      .ok (mark l "(" :: (inner ++ [c])) rest := group_balanced rfl hc hinner
  rw [readPath]
  simp [hgroup]

/-- The path was read of `run` behind the segments `done`, and `us` are the tokens of what it adds
to them: it is read again of these. -/
structure PathRestores (done : List String) (greedy : Bool) (run us : List Token) (r : Reference) :
    Prop where
  balanced : Balanced us
  leads : ∃ l text more, us = name l text :: more ∧ run.head?.any (·.isIdent text) = true ∧
    ∀ rest, Ends rest →
      ∀ u ∈ (more ++ rest).head?, u.isPunct "=" = false ∧ u.isPunct ":" = false
  read : ∀ fuel rest, Ends rest → (greedy = true → rest = []) → 3 * us.length ≤ fuel + 1 →
    readPath fuel done (us ++ rest) = .ok r rest

theorem readType_segment (h : segment ∉ "_" :: verbatimStarts) :
    readType (fuel + 1) (name l segment :: rest) = readPath fuel [] (name l segment :: rest) := by
  rw [List.mem_cons, not_or] at h
  rw [readType]
  simp [h]

/-- A path is a type, whether it is read with a mark in front of it or without. -/
theorem Restores.of_path {run' : List Token} (h : PathRestores [] greedy run us r)
    (hstart : ∀ t ∈ run.head?, t.text ∉ "_" :: verbatimStarts)
    (hmut : run.head?.any (·.isIdent "mut") = true → run'.head?.any (·.isIdent "mut") = true) :
    Restores greedy run' us r := by
  obtain ⟨l, text, more, rfl, hhead, hbinding⟩ := h.leads
  obtain ⟨t, ht, hident⟩ : ∃ t, run.head? = some t ∧ t.isIdent text = true := by
    simpa [Option.any_eq_true] using hhead
  have htext : t.text = text := by
    rw [Token.isIdent, Bool.and_eq_true] at hident
    exact eq_of_beq hident.2
  refine .of_read h.balanced (.inl rfl) ?_ (fun _ => hbinding) ?_
  · intro hname
    obtain rfl : text = "mut" := by simpa using hname
    exact hmut hhead
  · intro fuel rest hrest hgreedy hfuel
    obtain ⟨fuel, rfl⟩ : ∃ n, fuel = n + 1 := ⟨fuel - 1, by simp at hfuel; omega⟩
    rw [List.cons_append, readType_segment (htext ▸ hstart t ht)]
    exact h.read fuel rest hrest hgreedy hfuel

/-- The tokens of a segment and its arguments, which are read again. -/
structure SegmentRestores (us : List Token) (segment : String) (args : List Reference) : Prop where
  tokens : ∃ l vs, us = name l segment :: vs ∧ (vs = [] ∧ args = [] ∨
    ∃ l' ws, vs = mark l' "<" :: ws ∧ Balanced ws ∧
      ∀ fuel rest, 3 * ws.length ≤ fuel → readArguments fuel (ws ++ rest) = .ok args rest)

namespace PathRestores

/-- What follows the name of a segment makes no binding of it. -/
theorem leads_of_segment (vs : List Token) (h : SegmentRestores us segment args)
    (hrun : run.head?.any (·.isIdent segment) = true)
    (hvs : ∀ rest, Ends rest →
      ∀ u ∈ (vs ++ rest).head?, u.isPunct "=" = false ∧ u.isPunct ":" = false) :
    ∃ l text more, us ++ vs = name l text :: more ∧ run.head?.any (·.isIdent text) = true ∧
      ∀ rest, Ends rest →
        ∀ u ∈ (more ++ rest).head?, u.isPunct "=" = false ∧ u.isPunct ":" = false := by
  obtain ⟨l, ws, rfl, ⟨rfl, -⟩ | ⟨l', xs, rfl, -⟩⟩ := h
  · exact ⟨l, segment, vs, rfl, hrun, hvs⟩
  · exact ⟨l, segment, _, rfl, hrun, by simp⟩

theorem last (h : SegmentRestores us segment args)
    (hrun : run.head?.any (·.isIdent segment) = true) :
    PathRestores done greedy run us { segments := done ++ [segment], args } where
  balanced := by
    obtain ⟨l, ws, rfl, ⟨rfl, -⟩ | ⟨l', xs, rfl, hxs, -⟩⟩ := h
    · exact .singleton isInner_name
    · exact .inner isInner_name (.inner (isInner_mark rfl rfl) hxs)
  leads := by
    have hleads := leads_of_segment [] h hrun fun rest hrest u hu => by
      have hfollows := hrest.follows u hu
      exact ⟨hfollows _ (by simp), hfollows _ (by simp)⟩
    rwa [List.append_nil] at hleads
  read := by
    intro fuel rest hrest _ hfuel
    obtain ⟨l, ws, rfl, ⟨rfl, rfl⟩ | ⟨l', xs, rfl, -, hread⟩⟩ := h
    · obtain ⟨fuel, rfl⟩ : ∃ n, fuel = n + 1 := ⟨fuel - 1, by simp at hfuel; omega⟩
      exact readPath_last hrest.follows
    · simp only [List.length_cons] at hfuel
      obtain ⟨fuel, rfl⟩ : ∃ n, fuel = n + 1 := ⟨fuel - 1, by omega⟩
      exact readPath_arguments (.inl rfl) hrest.follows (hread fuel rest (by omega))

/-- A segment with its arguments, and the path behind it. -/
theorem cons {run' : List Token} (h : SegmentRestores us segment args)
    (hrun : run.head?.any (·.isIdent segment) = true)
    (hmore : PathRestores (done ++ [segmentText segment args]) greedy run' vs r) :
    PathRestores done greedy run (us ++ mark k "::" :: vs) r where
  balanced := by
    have hvs : Balanced (mark k "::" :: vs) := .inner (isInner_mark rfl rfl) hmore.balanced
    obtain ⟨l, ws, rfl, ⟨rfl, -⟩ | ⟨l', xs, rfl, hxs, -⟩⟩ := h
    · exact .inner isInner_name hvs
    · exact .inner isInner_name (.inner (isInner_mark rfl rfl) (hxs.append hvs))
  leads := leads_of_segment _ h hrun (by simp)
  read := by
    intro fuel rest hrest hgreedy hfuel
    obtain ⟨k', next, ws', rfl, -⟩ := hmore.leads
    obtain ⟨l, ws, rfl, ⟨rfl, rfl⟩ | ⟨l', xs, rfl, -, hread⟩⟩ := h
    · simp only [List.length_append, List.length_cons] at hfuel
      obtain ⟨fuel, rfl⟩ : ∃ n, fuel = n + 1 := ⟨fuel - 1, by omega⟩
      have hpath := hmore.read fuel rest hrest hgreedy (by rw [List.length_cons]; omega)
      exact readPath_cons.trans hpath
    · simp only [List.length_append, List.length_cons] at hfuel
      obtain ⟨fuel, rfl⟩ : ∃ n, fuel = n + 1 := ⟨fuel - 1, by omega⟩
      have hpath := hmore.read fuel rest hrest hgreedy (by rw [List.length_cons]; omega)
      have hargs := hread fuel (mark k "::" :: name k' next :: (ws' ++ rest)) (by omega)
      have hstep : readPath (fuel + 1) done (name l segment :: mark l' "<" ::
          (xs ++ mark k "::" :: name k' next :: (ws' ++ rest))) =
          readPath fuel (done ++ [segmentText segment args]) (name k' next :: (ws' ++ rest)) :=
        readPath_segment hargs
      simpa using hstep.trans hpath

theorem expansion {b : Bracket} (ho : o.opens? = some b) (hc : c.closes? = some b)
    (hinner : Balanced inner) (hrun : run.head?.any (·.isIdent segment) = true) :
    PathRestores done greedy run (name l segment :: mark l' "!" :: o :: (inner ++ [c]))
      (ofText (joinSegments (done ++ [segment]) ++ "!" ++ join (o :: (inner ++ [c])))) where
  balanced := .inner isInner_name (.inner (isInner_mark rfl rfl) (.bracketed ho hc hinner))
  leads := ⟨l, segment, _, rfl, hrun, by simp⟩
  read := by
    intro fuel rest _ _ hfuel
    simp only [List.length_cons] at hfuel
    obtain ⟨fuel, rfl⟩ : ∃ n, fuel = n + 1 := ⟨fuel - 1, by omega⟩
    rw [List.cons_append, List.cons_append, List.cons_append, List.append_assoc]
    exact readPath_macro ho hc hinner

theorem call (ho : o.isPunct "(" = true) (hc : c.closes? = some .round) (hinner : Balanced inner)
    (hrun : run.head?.any (·.isIdent segment) = true) :
    PathRestores done greedy run (name l segment :: o :: (inner ++ [c]))
      (ofText (joinSegments (done ++ [segment ++ join (o :: (inner ++ [c]))]))) where
  balanced := by
    obtain ⟨l, rfl⟩ := exists_mark ho
    exact .inner isInner_name (.bracketed rfl hc hinner)
  leads := by
    obtain ⟨l', rfl⟩ := exists_mark ho
    exact ⟨l, segment, _, rfl, hrun, by simp⟩
  read := by
    intro fuel rest hrest _ hfuel
    simp only [List.length_cons] at hfuel
    obtain ⟨fuel, rfl⟩ : ∃ n, fuel = n + 1 := ⟨fuel - 1, by omega⟩
    rw [List.cons_append, List.cons_append, List.append_assoc]
    refine (readPath_parentheses ho hc hinner).trans ?_
    simp [hrest.any_arrow]

theorem callTo {run' : List Token} (ho : o.isPunct "(" = true) (hc : c.closes? = some .round)
    (hinner : Balanced inner) (hrun : run.head?.any (·.isIdent segment) = true)
    (h : Restores greedy run' us result) :
    PathRestores done greedy run
      (name l segment :: o :: (inner ++ [c]) ++ mark l' "->" :: us)
      (ofText (joinSegments
        (done ++ [segment ++ join (o :: (inner ++ [c])) ++ " -> " ++ render result]))) where
  balanced := by
    obtain ⟨l, rfl⟩ := exists_mark ho
    exact .inner isInner_name
      ((Balanced.bracketed rfl hc hinner).append (.inner (isInner_mark rfl rfl) h.balanced))
  leads := by
    obtain ⟨l', rfl⟩ := exists_mark ho
    exact ⟨l, segment, _, rfl, hrun, by simp⟩
  read := by
    intro fuel rest hrest hgreedy hfuel
    simp only [List.length_append, List.length_cons] at hfuel
    obtain ⟨fuel, rfl⟩ : ∃ n, fuel = n + 1 := ⟨fuel - 1, by omega⟩
    have hread := h.read fuel rest hrest hgreedy (by omega)
    have htokens : name l segment :: o :: (inner ++ [c]) ++ mark l' "->" :: us ++ rest =
        name l segment :: o :: (inner ++ c :: (mark l' "->" :: (us ++ rest))) := by simp
    rw [htokens]
    refine (readPath_parentheses ho hc hinner).trans ?_
    simp [hread]

end PathRestores

end Reference

end ConversionClosure
