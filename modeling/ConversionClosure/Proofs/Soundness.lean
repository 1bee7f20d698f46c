/-
References as they are read.

A reader gives every node the parts that its form shows and no others.  A lifetime may be the
argument of a path, and elsewhere it is a type of its own in no place.  `Sound` says this of a
reference, and its first argument tells whether the reference is the argument of a path.

A sound reference lacks nothing that a question about it looks at.  And when two sound references
mean the same type, their texts differ as soon as they do, since then a lifetime differs
(`Sound.eq_of_render`).
-/
import ConversionClosure.Proofs.Legible
import ConversionClosure.Proofs.Parts
import ConversionClosure.Proofs.Substituting

namespace ConversionClosure

namespace Text

/-- The text is not empty, and no quote stands at its start. -/
def Opens (text : String) : Prop := text.toList.head?.any (· != '\'') = true

instance (text : String) : Decidable (Opens text) := inferInstanceAs (Decidable (_ = true))

theorem Opens.append {text : String} (h : Opens text) (more : String) : Opens (text ++ more) := by
  unfold Opens at h ⊢
  rw [String.toList_append, List.head?_append]
  cases hhead : text.toList.head? with
  | none => simp [hhead] at h
  | some c => simpa [hhead] using h

theorem Opens.intercalate {first : String} (h : Opens first) (sep : String) (more : List String) :
    Opens (sep.intercalate (first :: more)) := by
  cases more with
  | nil => simpa using h
  | cons second more =>
      rw [String.intercalate_cons_cons]
      exact (h.append _).append _

end Text

namespace Reference

open Text

variable {r s : Reference} {argument : Bool}

/-- A reference as a reader makes it, where it is the argument of a path or not. -/
inductive Sound : Bool → Reference → Prop
  | path {argument : Bool} {first : String} {more : List String} {args : List Reference}
      (hfirst : Opens first) (hargs : ∀ a ∈ args, Sound true a) :
      Sound argument { segments := first :: more, args }
  | ampersand {argument : Bool} (exclusive : Bool) {lifetime : String} {inner : Reference}
      (hlifetime : lifetime = "" ∨ isLifetime lifetime = true) (hinner : Sound false inner) :
      Sound argument { modifier := ampersand exclusive, args := [inner], lifetime }
  | star {argument : Bool} (exclusive : Bool) {inner : Reference} (hinner : Sound false inner) :
      Sound argument { modifier := star exclusive, args := [inner] }
  | tuple {argument : Bool} {args : List Reference} (hargs : ∀ a ∈ args, Sound false a) :
      Sound argument { modifier := .tuple, args }
  | slice {argument : Bool} {inner : Reference} (hinner : Sound false inner) :
      Sound argument { modifier := .slice, args := [inner] }
  | array {argument : Bool} {length : String} {inner : Reference} (hinner : Sound false inner) :
      Sound argument { modifier := .array, args := [inner], length }
  | verbatim {argument : Bool} {text : String} (htext : argument = false → Opens text) :
      Sound argument (ofText text)

/-- A plain reference is sound, since no name starts with a quote. -/
theorem Plain.sound (h : r.Plain) : Sound argument r := by
  induction h generalizing argument with
  | path hsegments _ _ ih =>
      obtain ⟨c, cs, htext, hc, -⟩ := isIdentifier_iff.mp (hsegments _ List.mem_cons_self)
      have hquote : c ≠ '\'' := (ne_of_isNameChar (isNameChar_of_isNameStart hc)).2.2.2.1
      exact .path (by simpa [Opens, htext] using hquote) fun a ha => ih a ha
  | ampersand exclusive hlifetime _ ih => exact .ampersand exclusive hlifetime ih
  | star exclusive _ ih => exact .star exclusive ih
  | tuple _ ih => exact .tuple fun a ha => ih a ha
  | slice _ ih => exact .slice ih
  | array _ _ ih => exact .array ih

namespace Sound

/-- What may stand anywhere may also be the argument of a path. -/
theorem toArgument (h : Sound argument r) : Sound true r := by
  cases h with
  | path hfirst hargs => exact .path hfirst hargs
  | ampersand exclusive hlifetime hinner => exact .ampersand exclusive hlifetime hinner
  | star exclusive hinner => exact .star exclusive hinner
  | tuple hargs => exact .tuple hargs
  | slice hinner => exact .slice hinner
  | array hinner => exact .array hinner
  | verbatim htext => exact .verbatim fun h => absurd h (by simp)

/-! ### Questions that have an answer -/

theorem hasText (h : Sound argument r) : r.hasText = true := by
  induction h with
  | path _ _ ih | tuple _ ih => simpa [Reference.hasText, allHaveText_eq] using ih
  | ampersand exclusive _ _ ih => cases exclusive <;> exact ih
  | star exclusive _ ih => cases exclusive <;> exact ih
  | slice _ ih | array _ ih => exact ih
  | verbatim _ => rfl

theorem allSettleGeneric_of {rs : List Reference} (h : ∀ r ∈ rs, r.settlesGeneric = true) :
    allSettleGeneric rs = true := by
  induction rs with
  | nil => rfl
  | cons r rs ih =>
      have hrest := ih fun s hs => h s (by simp [hs])
      simp [allSettleGeneric, h r (by simp), hrest]

theorem settlesGeneric (h : Sound argument r) : r.settlesGeneric = true := by
  induction h with
  | path _ _ _ => rfl
  | ampersand exclusive _ _ ih =>
      cases exclusive <;> exact allSettleGeneric_of (by simpa using ih)
  | star exclusive _ ih => cases exclusive <;> exact allSettleGeneric_of (by simpa using ih)
  | tuple _ ih => exact allSettleGeneric_of ih
  | slice _ ih | array _ ih => exact allSettleGeneric_of (by simpa using ih)
  | verbatim _ => rfl

theorem generic_eq (h : Sound argument r) : r.generic = .ok r.isGeneric := by
  rw [generic, h.settlesGeneric]
  rfl

theorem allSettleMention_of {wanted : List String} {rs : List Reference}
    (h : ∀ r ∈ rs, r.settlesMention wanted = true) : allSettleMention wanted rs = true := by
  induction rs with
  | nil => rfl
  | cons r rs ih =>
      have hrest := ih fun s hs => h s (by simp [hs])
      simp [allSettleMention, h r (by simp), hrest]

theorem settlesMention (wanted : List String) (h : Sound argument r) :
    r.settlesMention wanted = true := by
  induction h with
  | path _ _ ih | tuple _ ih => simp [Reference.settlesMention, allSettleMention_of ih]
  | ampersand exclusive _ _ ih =>
      cases exclusive <;>
        simp [Reference.settlesMention, Reference.ampersand, allSettleMention_of, ih]
  | star exclusive _ ih =>
      cases exclusive <;>
        simp [Reference.settlesMention, Reference.star, allSettleMention_of, ih]
  | slice _ ih | array _ ih => simp [Reference.settlesMention, allSettleMention_of, ih]
  | verbatim _ => simp [Reference.settlesMention, ofText, allSettleMention]

theorem settlesLifetimes (h : Sound argument r) : r.settlesLifetimes = true := by
  have hinner : ∀ {inner : Reference}, inner.settlesLifetimes = true →
      allSettleLifetimes [inner] = true := by
    intro inner ih
    simpa [allSettleLifetimes] using ih
  induction h with
  | path _ _ ih | tuple _ ih =>
      simpa [Reference.settlesLifetimes, allSettleLifetimes_eq] using ih
  | ampersand exclusive _ _ ih => cases exclusive <;> exact hinner ih
  | star exclusive _ ih => cases exclusive <;> exact hinner ih
  | slice _ ih | array _ ih => exact hinner ih
  | verbatim _ => rfl

/-! ### The type an item is about -/

/-- A path has a first segment. -/
theorem exists_segments (h : Sound argument r) (hpath : r.isPath = true) :
    ∃ first more, r.segments = first :: more ∧ Opens first := by
  cases h with
  | path hfirst _ => exact ⟨_, _, rfl, hfirst⟩
  | ampersand exclusive _ _ => cases exclusive <;> exact absurd hpath Bool.false_ne_true
  | star exclusive _ => cases exclusive <;> exact absurd hpath Bool.false_ne_true
  | tuple _ | slice _ | array _ | verbatim _ => exact absurd hpath Bool.false_ne_true

theorem replaceHead {first : String} {more : List String} {args : List Reference}
    (hfirst : Opens first) (hargs : ∀ a ∈ args, Sound true a) (hs : Sound false s) :
    Sound argument (replaceHead { segments := first :: more, args } s) := by
  rcases replaceHead_cases { segments := first :: more, args } s with
    hstays | halone | ⟨_, behind, -, hpath, hjoined⟩
  · rw [hstays]
    exact .path hfirst hargs
  · rw [halone]
    cases argument with
    | true => exact hs.toArgument
    | false => exact hs
  · obtain ⟨first', more', hsegments, hfirst'⟩ := hs.exists_segments hpath
    rw [hjoined, hsegments, List.cons_append]
    exact .path hfirst' hargs

/-- A sound type in the place of `Self` leaves a sound reference. -/
theorem replaceSelf (h : Sound argument r) (hs : Sound false s) :
    Sound argument (r.replaceSelf s) := by
  induction h with
  | path hfirst _ ih =>
      simp only [Reference.replaceSelf, replaceSelfAll_eq_map]
      exact replaceHead hfirst (by simpa using ih) hs
  | ampersand exclusive hlifetime _ ih =>
      cases exclusive
      · exact .ampersand false hlifetime ih
      · exact .ampersand true hlifetime ih
  | star exclusive _ ih =>
      cases exclusive
      · exact .star false ih
      · exact .star true ih
  | tuple _ ih =>
      simp only [Reference.replaceSelf, replaceSelfAll_eq_map]
      exact .tuple (by simpa using ih)
  | slice _ ih => exact .slice ih
  | array _ ih => exact .array ih
  | verbatim htext => exact .verbatim htext

/-! ### Texts -/

/-- The text of a reference that is no argument opens like a type. -/
theorem opens_render (h : Sound false r) : Opens r.render := by
  have hmark : ∀ mark ∈ ["&", "*const ", "*mut ", "(", "["], Opens mark := by
    decide
  cases h with
  | path hfirst _ => exact (hfirst.intercalate _ _).append _
  | ampersand exclusive _ _ =>
      cases exclusive
      · exact ((hmark "&" (by simp)).append _).append _
      · exact (((hmark "&" (by simp)).append _).append _).append _
  | star exclusive _ =>
      cases exclusive
      · exact (hmark "*const " (by simp)).append _
      · exact (hmark "*mut " (by simp)).append _
  | @tuple _ args _ =>
      by_cases hone : (renderAll args).length = 1
      · simp only [render, if_pos hone]
        exact ((hmark "(" (by simp)).append _).append _
      · simp only [render, if_neg hone]
        exact ((hmark "(" (by simp)).append _).append _
  | slice _ => exact ((hmark "[" (by simp)).append _).append _
  | array _ => exact ((((hmark "[" (by simp)).append _).append _).append _).append _
  | verbatim htext => exact htext rfl

/-! ### One text, one reference -/

/-- Only a reference behind an ampersand has a lifetime. -/
theorem lifetime_eq (h : Sound argument r) (hshared : r.modifier ≠ .shared)
    (hexclusive : r.modifier ≠ .exclusive) : r.lifetime = "" := by
  cases h with
  | ampersand exclusive _ _ =>
      cases exclusive
      · exact absurd rfl hshared
      · exact absurd rfl hexclusive
  | path _ _ | star _ _ | tuple _ | slice _ | array _ | verbatim _ => rfl

/-- A type known by its text has no other part. -/
theorem exists_ofText (h : Sound argument r) (hverbatim : r.modifier = .verbatim) :
    ∃ text, r = ofText text := by
  cases h with
  | verbatim _ => exact ⟨_, rfl⟩
  | ampersand exclusive _ _ => cases exclusive <;> cases hverbatim
  | star exclusive _ => cases exclusive <;> cases hverbatim
  | path _ _ | tuple _ | slice _ | array _ => cases hverbatim

theorem isLifetime (h : Sound argument r) : r.lifetime = "" ∨ isLifetime r.lifetime = true := by
  cases h with
  | ampersand _ hlifetime _ => exact hlifetime
  | path _ _ | star _ _ | tuple _ | slice _ | array _ | verbatim _ => exact Or.inl rfl

theorem args (h : Sound argument r) : ∀ a ∈ r.args, Sound r.isPath a := by
  cases h with
  | path _ hargs | tuple hargs => exact hargs
  | ampersand exclusive _ hinner =>
      cases exclusive <;> exact List.forall_mem_singleton.mpr hinner
  | star exclusive hinner => cases exclusive <;> exact List.forall_mem_singleton.mpr hinner
  | slice hinner | array hinner => exact List.forall_mem_singleton.mpr hinner
  | verbatim _ => simp [ofText]

/-- What stands before the first occurrence of a character can be told. -/
theorem append_cons_cancel {c : Char} {as bs cs ds : List Char} (ha : c ∉ as) (hb : c ∉ bs)
    (h : as ++ c :: cs = bs ++ c :: ds) : as = bs ∧ cs = ds := by
  induction as generalizing bs with
  | nil =>
      cases bs with
      | nil => exact ⟨rfl, (List.cons.inj h).2⟩
      | cons b bs => exact absurd (List.cons.inj h).1 fun heq => hb (by simp [heq])
  | cons a as ih =>
      cases bs with
      | nil => exact absurd (List.cons.inj h).1 fun heq => ha (by simp [heq])
      | cons b bs =>
          obtain ⟨rfl, hrest⟩ := List.cons.inj h
          obtain ⟨rfl, hcs⟩ := ih (fun hmem => ha (by simp [hmem]))
            (fun hmem => hb (by simp [hmem])) hrest
          exact ⟨rfl, hcs⟩

theorem toList_lifetimeText {l : String} (h : Text.isLifetime l = true) :
    (lifetimeText l).toList = l.toList ++ [' '] ∧ (lifetimeText l).toList.head? = some '\'' ∧
      ' ' ∉ l.toList := by
  obtain ⟨c, cs, htext, hstart, hname⟩ := isLifetime_iff.mp h
  have hblank : isNameChar ' ' = false := by decide
  have hne : l ≠ "" := by
    rintro rfl
    simp at htext
  have hshown : (lifetimeText l).toList = l.toList ++ [' '] := by
    rw [lifetimeText, if_neg hne, String.toList_append]
    rfl
  refine ⟨hshown, by rw [hshown, htext, List.cons_append, List.head?_cons], ?_⟩
  · rw [htext]
    intro hmem
    rcases List.mem_cons.mp hmem with heq | hmem
    · exact absurd heq (by decide)
    rcases List.mem_cons.mp hmem with rfl | hmem
    · rw [isNameChar_of_isNameStart hstart] at hblank
      exact absurd hblank (by simp)
    · rw [hname ' ' hmem] at hblank
      exact absurd hblank (by simp)

/-- Where a lifetime ends, and whether there is one, can be told from the text behind an
ampersand. -/
theorem lifetimeText_cancel {l m : String} {cs ds : List Char}
    (hl : l = "" ∨ Text.isLifetime l = true) (hm : m = "" ∨ Text.isLifetime m = true)
    (hcs : cs.head? ≠ some '\'') (hds : ds.head? ≠ some '\'')
    (h : (lifetimeText l).toList ++ cs = (lifetimeText m).toList ++ ds) : l = m ∧ cs = ds := by
  have hhead := congrArg List.head? h
  rcases hl with rfl | hl
  · rcases hm with rfl | hm
    · exact ⟨rfl, h⟩
    · obtain ⟨htext, hquote, -⟩ := toList_lifetimeText hm
      refine absurd ?_ hcs
      rw [List.head?_append, List.head?_append, hquote] at hhead
      simpa [lifetimeText] using hhead
  · obtain ⟨htext, hquote, hblank⟩ := toList_lifetimeText hl
    rcases hm with rfl | hm
    · refine absurd ?_ hds
      rw [List.head?_append, List.head?_append, hquote] at hhead
      simpa [lifetimeText] using hhead.symm
    · obtain ⟨htext', -, hblank'⟩ := toList_lifetimeText hm
      rw [htext, htext', List.append_assoc, List.append_assoc] at h
      obtain ⟨hlm, hrest⟩ := append_cons_cancel hblank hblank' h
      exact ⟨String.toList_inj.mp hlm, hrest⟩

/-- Of the references that mean the same type, at most one has a given text, and where this ends can
be told. -/
def Determined (a : Reference) : Prop :=
  ∀ argument b cs ds, Sound argument b → a.elided = b.elided →
    a.render.toList ++ cs = b.render.toList ++ ds → a = b ∧ cs = ds

theorem determined_all {as bs : List Reference} {cs ds : List Char}
    (has : ∀ a ∈ as, Determined a) (hbs : ∀ b ∈ bs, Sound argument b)
    (he : as.map elided = bs.map elided)
    (h : (commaSeparated (as.map render)).toList ++ cs =
      (commaSeparated (bs.map render)).toList ++ ds) : as = bs ∧ cs = ds := by
  induction as generalizing bs with
  | nil =>
      obtain rfl : bs = [] := by simpa using he.symm
      exact ⟨rfl, h⟩
  | cons a as ih =>
      obtain ⟨b, bs, rfl, hb, hes⟩ := List.map_eq_cons_iff.mp he.symm
      cases as with
      | nil =>
          obtain rfl : bs = [] := by simpa using hes
          obtain ⟨rfl, hcs⟩ := has a (by simp) argument b cs ds (hbs b (by simp)) hb.symm
            (by simpa [commaSeparated] using h)
          exact ⟨rfl, hcs⟩
      | cons a' as =>
          obtain ⟨b', bs, rfl, -, -⟩ := List.map_eq_cons_iff.mp hes
          have hcons : ∀ r s : Reference, ∀ rs : List Reference, ∀ cs : List Char,
              (commaSeparated ((r :: s :: rs).map render)).toList ++ cs =
                r.render.toList ++ (',' :: ' ' ::
                  ((commaSeparated ((s :: rs).map render)).toList ++ cs)) := by
            intro r s rs cs
            simp [commaSeparated, String.intercalate_cons_cons]
          rw [hcons, hcons] at h
          obtain ⟨rfl, hrest⟩ := has a (by simp) argument b _ _ (hbs b (by simp)) hb.symm h
          obtain ⟨heq, hcs⟩ := ih (fun c hc => has c (by simp [hc]))
            (fun c hc => hbs c (by simp [hc])) hes.symm (List.cons.inj (List.cons.inj hrest).2).2
          exact ⟨by rw [heq], hcs⟩

/-- A reference that means the same type as a form around one type is of this form too. -/
theorem exists_inner {modifier : Modifier} {inner b : Reference} {length lifetime : String}
    (hb : Sound argument b) (hpath : modifier ≠ .path)
    (he : ({ modifier, args := [inner], length, lifetime } : Reference).elided = b.elided) :
    ∃ inner' lifetime', b = { modifier, args := [inner'], length, lifetime := lifetime' } ∧
      Sound false inner' ∧ inner.elided = inner'.elided := by
  obtain ⟨modifier', segments, bs, length', lifetime'⟩ := b
  simp only [elided, elidedAll_eq_map, mk.injEq, List.map_cons, List.map_nil] at he
  obtain ⟨rfl, rfl, hbs, rfl, -⟩ := he
  obtain ⟨inner', rfl, hinner'⟩ := List.map_eq_singleton_iff.mp hbs.symm
  have hsound := hb.args inner' (by simp)
  rw [isPath, beq_false_of_ne hpath] at hsound
  exact ⟨inner', lifetime', rfl, hsound, hinner'.symm⟩

/-- The text of a type does not start with a quote, whatever is behind it. -/
theorem head?_render_append (h : Sound false r) (cs : List Char) :
    (r.render.toList ++ cs).head? ≠ some '\'' := by
  have hopens := h.opens_render
  rw [List.head?_append]
  cases hhead : r.render.toList.head? with
  | none => simp [Opens, hhead] at hopens
  | some c => simpa [Opens, hhead] using hopens

theorem determined_path {first : String} {more : List String} {args : List Reference}
    (hargs : ∀ a ∈ args, Determined a) : Determined { segments := first :: more, args } := by
  intro argument b cs ds hb he h
  obtain ⟨modifier, segments, bs, length, lifetime⟩ := b
  simp only [elided, elidedAll_eq_map, mk.injEq] at he
  obtain ⟨rfl, rfl, hbs, rfl, -⟩ := he
  obtain rfl : lifetime = "" := hb.lifetime_eq (by simp) (by simp)
  have hempty : bs.isEmpty = args.isEmpty := by simpa using congrArg List.isEmpty hbs.symm
  simp only [render, renderAll_eq_map, List.isEmpty_map, hempty, String.toList_append,
    List.append_assoc, List.append_cancel_left_eq] at h
  by_cases hnone : args.isEmpty = true
  · obtain rfl : args = [] := List.isEmpty_iff.mp hnone
    obtain rfl : bs = [] := by simpa using hempty
    exact ⟨rfl, by simpa using h⟩
  · simp only [hnone, if_false, Bool.false_eq_true, String.toList_append, List.append_assoc,
      List.append_cancel_left_eq] at h
    obtain ⟨rfl, hrest⟩ := determined_all hargs hb.args hbs h
    exact ⟨rfl, List.append_cancel_left hrest⟩

/-- A reference behind an ampersand, with what stands between the lifetime and its type. -/
theorem determined_ampersand {modifier : Modifier} (middle : List Char) {lifetime : String}
    {inner : Reference} (hpath : modifier ≠ .path) (hmiddle : middle.head? ≠ some '\'')
    (hrender : ∀ (r : Reference) (l : String),
      ({ modifier, args := [r], lifetime := l } : Reference).render.toList =
        '&' :: ((lifetimeText l).toList ++ (middle ++ r.render.toList)))
    (hlifetime : lifetime = "" ∨ Text.isLifetime lifetime = true) (hinner : Sound false inner)
    (ih : Determined inner) : Determined { modifier, args := [inner], lifetime } := by
  intro argument b cs ds hb he h
  obtain ⟨inner', lifetime', rfl, hinner', hsame⟩ := hb.exists_inner hpath he
  have hquote : ∀ {r : Reference}, Sound false r → ∀ cs,
      (middle ++ (r.render.toList ++ cs)).head? ≠ some '\'' := by
    intro r hr cs
    cases middle with
    | nil => exact hr.head?_render_append cs
    | cons c middle => simpa using hmiddle
  rw [hrender, hrender, List.cons_append, List.cons_append, List.append_assoc, List.append_assoc,
    List.append_assoc, List.append_assoc] at h
  obtain ⟨rfl, hrest⟩ := lifetimeText_cancel hlifetime hb.isLifetime (hquote hinner cs)
    (hquote hinner' ds) (List.cons.inj h).2
  obtain ⟨rfl, hcs⟩ := ih _ _ _ _ hinner' hsame (List.append_cancel_left hrest)
  exact ⟨rfl, hcs⟩

/-- A form around one type that has no lifetime, with what stands on both sides of the type. -/
theorem determined_around {modifier : Modifier} (front back : List Char) {length : String}
    {inner : Reference} (hpath : modifier ≠ .path) (hshared : modifier ≠ .shared)
    (hexclusive : modifier ≠ .exclusive)
    (hrender : ∀ r : Reference, ({ modifier, args := [r], length } : Reference).render.toList =
      front ++ (r.render.toList ++ back))
    (ih : Determined inner) : Determined { modifier, args := [inner], length } := by
  intro argument b cs ds hb he h
  obtain ⟨inner', lifetime', rfl, hinner', hsame⟩ := hb.exists_inner hpath he
  obtain rfl : lifetime' = "" := hb.lifetime_eq hshared hexclusive
  rw [hrender, hrender, List.append_assoc, List.append_assoc, List.append_assoc,
    List.append_assoc] at h
  obtain ⟨rfl, hrest⟩ := ih _ _ _ _ hinner' hsame (List.append_cancel_left h)
  exact ⟨rfl, List.append_cancel_left hrest⟩

theorem toList_render_tuple (rs : List Reference) :
    ({ modifier := .tuple, args := rs } : Reference).render.toList =
      '(' :: ((commaSeparated (rs.map render)).toList ++
        if rs.length = 1 then [',', ')'] else [')']) := by
  simp only [render, renderAll_eq_map, List.length_map]
  by_cases hone : rs.length = 1
  · obtain ⟨r, rfl⟩ := List.length_eq_one_iff.mp hone
    simp [commaSeparated]
  · simp [hone]

theorem determined_tuple {args : List Reference} (hargs : ∀ a ∈ args, Determined a) :
    Determined { modifier := .tuple, args } := by
  intro argument b cs ds hb he h
  obtain ⟨modifier, segments, bs, length, lifetime⟩ := b
  simp only [elided, elidedAll_eq_map, mk.injEq] at he
  obtain ⟨rfl, rfl, hbs, rfl, -⟩ := he
  obtain rfl : lifetime = "" := hb.lifetime_eq (by simp) (by simp)
  have hlength : bs.length = args.length := by simpa using congrArg List.length hbs.symm
  rw [toList_render_tuple, toList_render_tuple, hlength, List.cons_append, List.cons_append,
    List.append_assoc, List.append_assoc] at h
  obtain ⟨rfl, hrest⟩ := determined_all hargs hb.args hbs (List.cons.inj h).2
  exact ⟨rfl, List.append_cancel_left hrest⟩

theorem determined_verbatim (text : String) : Determined (ofText text) := by
  intro argument b cs ds hb he h
  obtain ⟨modifier, segments, bs, length, lifetime⟩ := b
  simp only [ofText, elided, elidedAll_eq_map, mk.injEq, List.map_nil] at he
  obtain ⟨rfl, rfl, hbs, rfl, -⟩ := he
  obtain rfl : bs = [] := by simpa using hbs.symm
  obtain rfl : lifetime = "" := hb.lifetime_eq (by simp) (by simp)
  exact ⟨rfl, List.append_cancel_left h⟩

theorem determined (h : Sound argument r) : Determined r := by
  induction h with
  | path _ _ ih => exact determined_path ih
  | ampersand exclusive hlifetime hinner ih =>
      cases exclusive
      · refine determined_ampersand [] (by decide) (by decide) ?_ hlifetime hinner ih
        intro r l
        simp [Reference.ampersand, render]
      · refine determined_ampersand "mut ".toList (by decide) (by decide) ?_ hlifetime hinner ih
        intro r l
        simp [Reference.ampersand, render]
  | star exclusive _ ih =>
      cases exclusive
      · refine determined_around "*const ".toList [] (by decide) (by decide) (by decide) ?_ ih
        intro r
        simp [Reference.star, render]
      · refine determined_around "*mut ".toList [] (by decide) (by decide) (by decide) ?_ ih
        intro r
        simp [Reference.star, render]
  | tuple _ ih => exact determined_tuple ih
  | slice _ ih =>
      refine determined_around ['['] [']'] (by decide) (by decide) (by decide) ?_ ih
      intro r
      simp [render]
  | @array _ length _ _ ih =>
      refine determined_around ['['] ("; " ++ length ++ "]").toList (by decide) (by decide)
        (by decide) ?_ ih
      intro r
      simp [render]
  | verbatim _ => exact determined_verbatim _

/-- **Sound references that mean the same type and have the same text are the same.** -/
theorem eq_of_render {a b : Reference} {argument' : Bool} (ha : Sound argument a)
    (hb : Sound argument' b) (he : a ≈ b) (h : a.render = b.render) : a = b := by
  have htext : a.render.toList ++ [] = b.render.toList ++ [] := by rw [h]
  exact (ha.determined argument' b [] [] hb he htext).1

end Sound

end Reference

end ConversionClosure
