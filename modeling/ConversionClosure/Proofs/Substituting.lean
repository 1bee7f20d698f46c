/-
Putting a type in the place of `Self`.

`replaceSelf` goes through every form of a reference except the types that are known by their text.
On the way only paths that start with `Self` are changed, and what becomes of one is told by
`replaceHead`: it makes way for the type, or it goes on behind the path of the type, or it stays.

So a type without such a path stays as it is (`SelfFree.replaceSelf_eq`), and a path that does not
itself start with `Self` leaves none behind.  Two types put in one after the other come to the
second put into the first, which is one law for each of those three ways.  The joined path is a new
one, made of segments and arguments alone.  That is why the law asks that a path behind `Self`
carries nothing else (`BareSelf`), and that the first type has a segment for the joined path to
start with.
-/
import ConversionClosure.Reference.Substitution

namespace ConversionClosure.Reference

variable {r a b concrete : Reference} {segments : List String} {args : List Reference}
  {first : String} {more : List String} {length lifetime : String}

/-! ### Paths -/

/-- A path that does not start with `Self` stays. -/
theorem replaceHead_of_ne (h : r.segments.head? ≠ some selfSegment) :
    replaceHead r concrete = r := by
  unfold replaceHead
  split
  · rfl
  · rename_i head tail hsegments
    rw [hsegments, List.head?_cons] at h
    exact if_neg fun hself => h (congrArg some hself)

/-- `Self` alone makes way for the type. -/
theorem replaceHead_alone :
    replaceHead ⟨.path, [selfSegment], [], length, lifetime⟩ concrete = concrete := rfl

/-- The path goes on behind `Self`, with a segment or with arguments. -/
def Continued (more : List String) (args : List Reference) : Prop :=
  (more.isEmpty && args.isEmpty) = false

/-- A type with a path to continue takes the place of `Self` in a longer path. -/
theorem replaceHead_continued (h : Continued more args) (hpath : concrete.isPath = true)
    (hargs : concrete.args = []) :
    replaceHead ⟨.path, selfSegment :: more, args, length, lifetime⟩ concrete =
      { segments := concrete.segments ++ more, args } := by
  unfold Continued at h
  simp [replaceHead, h, hpath, hargs]

/-- A longer path stays if the type has no path to continue. -/
theorem replaceHead_stuck (h : Continued more args)
    (hconcrete : (concrete.isPath && concrete.args.isEmpty) = false) :
    replaceHead ⟨.path, selfSegment :: more, args, length, lifetime⟩ concrete =
      ⟨.path, selfSegment :: more, args, length, lifetime⟩ := by
  unfold Continued at h
  simp [replaceHead, h, hconcrete]

theorem Continued.map (h : Continued more args) (f : Reference → Reference) :
    Continued more (args.map f) := by
  simpa [Continued] using h

/-- What becomes of a path: it stays, or it makes way for the type, or the path of the type comes to
stand in the place of its first segment. -/
theorem replaceHead_cases (r concrete : Reference) :
    replaceHead r concrete = r ∨ replaceHead r concrete = concrete ∨
      ∃ first more, r.segments = first :: more ∧ concrete.isPath = true ∧
        replaceHead r concrete = { segments := concrete.segments ++ more, args := r.args } := by
  unfold replaceHead
  split
  · exact .inl rfl
  · rename_i head tail hsegments
    split
    · split
      · exact .inr (.inl rfl)
      split
      · rename_i hconcrete
        have hpath := (Bool.and_eq_true_iff.mp hconcrete).1
        exact .inr (.inr ⟨head, tail, hsegments, hpath, rfl⟩)
      · exact .inl rfl
    · exact .inl rfl

/-! ### Node by node -/

theorem replaceSelf_path : replaceSelf ⟨.path, segments, args, length, lifetime⟩ concrete =
    replaceHead ⟨.path, segments, args.map (·.replaceSelf concrete), length, lifetime⟩
      concrete := by
  rw [replaceSelf, replaceSelfAll_eq_map]

theorem replaceSelf_verbatim : replaceSelf ⟨.verbatim, segments, args, length, lifetime⟩ concrete =
    ⟨.verbatim, segments, args, length, lifetime⟩ := rfl

/-- Any other form hands the type on to its parts. -/
theorem replaceSelf_wrapped {modifier : Modifier} (hpath : modifier ≠ .path)
    (hverbatim : modifier ≠ .verbatim) :
    replaceSelf ⟨modifier, segments, args, length, lifetime⟩ concrete =
      ⟨modifier, segments, args.map (·.replaceSelf concrete), length, lifetime⟩ := by
  rw [replaceSelf.eq_def]
  simp only [replaceSelfAll_eq_map]

/-- A path without arguments is all there is to replace in. -/
theorem replaceSelf_of_isPath (hpath : a.isPath = true) (hargs : a.args = []) :
    a.replaceSelf b = replaceHead a b := by
  obtain ⟨modifier, segments, args, length, lifetime⟩ := a
  obtain rfl : modifier = .path := eq_of_beq hpath
  obtain rfl : args = [] := hargs
  exact replaceSelf_path

/-! ### Types without `Self` -/

/-- No path in the type starts with `Self`, apart from what is known by its text. -/
inductive SelfFree : Reference → Prop
  | verbatim {segments : List String} {args : List Reference} {length lifetime : String} :
      SelfFree ⟨.verbatim, segments, args, length, lifetime⟩
  | node {modifier : Modifier} {segments : List String} {args : List Reference}
      {length lifetime : String}
      (hhead : modifier = .path → segments.head? ≠ some selfSegment)
      (hargs : ∀ x ∈ args, SelfFree x) : SelfFree ⟨modifier, segments, args, length, lifetime⟩

/-- **A type without `Self` stays as it is**, with all that it carries. -/
theorem SelfFree.replaceSelf_eq (h : r.SelfFree) (concrete : Reference) :
    r.replaceSelf concrete = r := by
  induction h with
  | verbatim => exact replaceSelf_verbatim
  | @node modifier segments args length lifetime hhead _ ih =>
      have hargs : args.map (·.replaceSelf concrete) = args := by
        rw [List.map_congr_left ih, List.map_id']
      by_cases hverbatim : modifier = .verbatim
      · subst hverbatim
        exact replaceSelf_verbatim
      by_cases hpath : modifier = .path
      · subst hpath
        rw [replaceSelf_path, hargs]
        exact replaceHead_of_ne (hhead rfl)
      · rw [replaceSelf_wrapped hpath hverbatim, hargs]

theorem SelfFree.of_isPath (hpath : a.isPath = true) (hargs : a.args = [])
    (hhead : a.segments.head? ≠ some selfSegment) : a.SelfFree := by
  obtain ⟨modifier, segments, args, length, lifetime⟩ := a
  obtain rfl : args = [] := hargs
  exact .node (fun _ => hhead) (by simp)

theorem head?_append_of_ne_nil (hne : a.segments ≠ []) (more : List String) :
    (a.segments ++ more).head? = a.segments.head? := by
  cases hsegments : a.segments with
  | nil => exact absurd hsegments hne
  | cons segment segments => rfl

/-- What a path that does not start with `Self` leaves of a path. -/
theorem selfFree_replaceHead (hpath : a.isPath = true) (hargs : a.args = [])
    (hne : a.segments ≠ []) (hhead : a.segments.head? ≠ some selfSegment)
    (h : ∀ x ∈ args, SelfFree x) :
    (replaceHead ⟨.path, segments, args, length, lifetime⟩ a).SelfFree := by
  by_cases hself : segments.head? = some selfSegment
  · obtain ⟨more, rfl⟩ := List.head?_eq_some_iff.mp hself
    by_cases hmore : Continued more args
    · rw [replaceHead_continued hmore hpath hargs]
      refine .node (fun _ => ?_) h
      rwa [head?_append_of_ne_nil hne]
    · obtain ⟨rfl, rfl⟩ : more = [] ∧ args = [] := by simpa [Continued] using hmore
      rw [replaceHead_alone]
      exact .of_isPath hpath hargs hhead
  · rw [replaceHead_of_ne hself]
    exact .node (fun _ => hself) h

/-- **A path that does not start with `Self` leaves none behind.** -/
theorem selfFree_replaceSelf (r : Reference) (hpath : a.isPath = true) (hargs : a.args = [])
    (hne : a.segments ≠ []) (hhead : a.segments.head? ≠ some selfSegment) :
    (r.replaceSelf a).SelfFree := by
  induction r using induction with
  | node r ih =>
      obtain ⟨modifier, segments, args, length, lifetime⟩ := r
      have hall : ∀ x ∈ args.map (·.replaceSelf a), x.SelfFree := by simpa using ih
      by_cases hverbatim : modifier = .verbatim
      · subst hverbatim
        exact .verbatim
      by_cases hform : modifier = .path
      · subst hform
        rw [replaceSelf_path]
        exact selfFree_replaceHead hpath hargs hne hhead hall
      · rw [replaceSelf_wrapped hform hverbatim]
        exact .node (fun h => absurd h hform) hall

/-! ### One type after the other -/

/-- No path that goes on behind `Self` carries a length or a lifetime, which say nothing of a path,
apart from what is known by its text. -/
inductive BareSelf : Reference → Prop
  | verbatim {segments : List String} {args : List Reference} {length lifetime : String} :
      BareSelf ⟨.verbatim, segments, args, length, lifetime⟩
  | node {modifier : Modifier} {segments : List String} {args : List Reference}
      {length lifetime : String}
      (hself : modifier = .path → segments.head? = some selfSegment →
        Continued segments.tail args → length = "" ∧ lifetime = "")
      (hargs : ∀ x ∈ args, BareSelf x) : BareSelf ⟨modifier, segments, args, length, lifetime⟩

/-- A longer path behind `Self` alone, and behind another path that starts with `Self`: the joined
path is the one that is continued in the end. -/
theorem replaceHead_joined (hmore : Continued more args) (hpath : a.isPath = true)
    (hargs : a.args = []) (hne : a.segments ≠ []) :
    replaceHead { segments := a.segments ++ more, args } b =
      replaceHead { segments := selfSegment :: more, args } (replaceHead a b) := by
  obtain ⟨modifier, segments, inner, length, lifetime⟩ := a
  obtain rfl : modifier = .path := eq_of_beq hpath
  obtain rfl : inner = [] := hargs
  by_cases hself : segments.head? = some selfSegment
  · obtain ⟨rest, rfl⟩ := List.head?_eq_some_iff.mp hself
    cases rest with
    | nil => rfl
    | cons second rest =>
        have hrest : Continued (second :: rest) [] := rfl
        have hlong : Continued (second :: rest ++ more) args := rfl
        cases hplain : b.isPath && b.args.isEmpty with
        | true =>
            obtain ⟨hb, hnone⟩ : b.isPath = true ∧ b.args = [] := by simpa using hplain
            rw [replaceHead_continued hrest hb hnone, List.cons_append,
              replaceHead_continued hlong hb hnone, replaceHead_continued hmore rfl rfl]
            simp
        | false =>
            rw [replaceHead_stuck hrest hplain, List.cons_append, replaceHead_stuck hlong hplain,
              replaceHead_continued hmore rfl rfl]
            rfl
  · have hjoined : (segments ++ more).head? ≠ some selfSegment := by
      rw [head?_append_of_ne_nil (a := ⟨.path, segments, [], length, lifetime⟩) hne]
      exact hself
    have halone : replaceHead ⟨.path, segments, [], length, lifetime⟩ b = _ :=
      replaceHead_of_ne hself
    rw [halone, replaceHead_continued hmore hpath rfl]
    exact replaceHead_of_ne hjoined

/-- A path of its own, whose arguments keep the law. -/
theorem replaceHead_replaceSelf (hpath : a.isPath = true) (hargs : a.args = [])
    (hne : a.segments ≠ [])
    (hself : segments.head? = some selfSegment → Continued segments.tail args →
      length = "" ∧ lifetime = "")
    (ih : ∀ x ∈ args, (x.replaceSelf a).replaceSelf b = x.replaceSelf (a.replaceSelf b)) :
    (replaceHead ⟨.path, segments, args.map (·.replaceSelf a), length, lifetime⟩ a).replaceSelf b =
      replaceHead ⟨.path, segments, args.map (·.replaceSelf (a.replaceSelf b)), length, lifetime⟩
        (a.replaceSelf b) := by
  have hall : (args.map (·.replaceSelf a)).map (·.replaceSelf b) =
      args.map (·.replaceSelf (a.replaceSelf b)) := by
    rw [List.map_map]
    exact List.map_congr_left ih
  by_cases hhead : segments.head? = some selfSegment
  · obtain ⟨more, rfl⟩ := List.head?_eq_some_iff.mp hhead
    by_cases hmore : Continued more args
    · obtain ⟨rfl, rfl⟩ := hself rfl hmore
      rw [replaceHead_continued (hmore.map _) hpath hargs, replaceSelf_path, hall,
        replaceHead_joined (hmore.map _) hpath hargs hne, replaceSelf_of_isPath hpath hargs]
    · obtain ⟨rfl, rfl⟩ : more = [] ∧ args = [] := by simpa [Continued] using hmore
      rfl
  · rw [replaceHead_of_ne hhead, replaceHead_of_ne hhead, replaceSelf_path, hall]
    exact replaceHead_of_ne hhead

/-- **Two types put in one after the other come to the second put into the first.** -/
theorem BareSelf.replaceSelf_replaceSelf (h : r.BareSelf) (hpath : a.isPath = true)
    (hargs : a.args = []) (hne : a.segments ≠ []) (b : Reference) :
    (r.replaceSelf a).replaceSelf b = r.replaceSelf (a.replaceSelf b) := by
  induction h with
  | verbatim => rfl
  | @node modifier segments args length lifetime hself _ ih =>
      by_cases hverbatim : modifier = .verbatim
      · subst hverbatim
        rfl
      by_cases hform : modifier = .path
      · subst hform
        rw [replaceSelf_path, replaceSelf_path]
        exact replaceHead_replaceSelf hpath hargs hne (hself rfl) ih
      · rw [replaceSelf_wrapped hform hverbatim, replaceSelf_wrapped hform hverbatim,
          replaceSelf_wrapped hform hverbatim, List.map_map]
        congr 1
        exact List.map_congr_left ih

/-- **Putting a type in the place of `Self` is a substitution.**  For a path `a` without arguments,
two types put in one after the other come to the second put into the first.  If `a` does not start
with `Self`, no such path is left, and doing it again changes nothing.  A type without such a path
stays as it is, whatever is put in. -/
theorem replaceSelf_substitutes (r a b : Reference) :
    (a.isPath = true → a.args = [] → a.segments ≠ [] →
      (r.BareSelf → (r.replaceSelf a).replaceSelf b = r.replaceSelf (a.replaceSelf b)) ∧
      (a.segments.head? ≠ some selfSegment →
        (r.replaceSelf a).SelfFree ∧ (r.replaceSelf a).replaceSelf a = r.replaceSelf a)) ∧
    (r.SelfFree → r.replaceSelf b = r) := by
  refine ⟨fun hpath hargs hne => ⟨fun hbare => ?_, fun hhead => ?_⟩, fun hfree => ?_⟩
  · exact hbare.replaceSelf_replaceSelf hpath hargs hne b
  · have hfree := selfFree_replaceSelf r hpath hargs hne hhead
    exact ⟨hfree, hfree.replaceSelf_eq a⟩
  · exact hfree.replaceSelf_eq b

/-- `&'a [(Self, Self::Item<Self>); 4]`, with `Self::Inner` in the place of `Self` and `&'b B` after
it, and with `m::A`, which leaves no `Self` behind; `&'b B` has none to begin with. -/
theorem replaceSelf_substitutes_wrapped :
    let selfType := ofSegments ["Self"]
    let item : Reference := { segments := ["Self", "Item"], args := [selfType] }
    let pair : Reference := { modifier := .tuple, args := [selfType, item] }
    let r : Reference :=
      { modifier := .shared
        args := [{ modifier := .array, args := [pair], length := "4" }]
        lifetime := "'a" }
    let b : Reference := { modifier := .shared, args := [ofSegments ["B"]], lifetime := "'b" }
    let inner := ofSegments ["Self", "Inner"]
    let named := ofSegments ["m", "A"]
    (r.replaceSelf inner).replaceSelf b = r.replaceSelf (inner.replaceSelf b) ∧
      (r.replaceSelf named).SelfFree ∧
      (r.replaceSelf named).replaceSelf named = r.replaceSelf named ∧
      b.replaceSelf r = b := by
  intro selfType item pair r b inner named
  have hself : selfType.BareSelf := .node (fun _ _ _ => ⟨rfl, rfl⟩) (by simp)
  have hitem : item.BareSelf :=
    .node (fun _ _ _ => ⟨rfl, rfl⟩) (by simpa using hself)
  have hpair : pair.BareSelf := .node nofun (by simpa using ⟨hself, hitem⟩)
  have harray : BareSelf { modifier := .array, args := [pair], length := "4" } :=
    .node nofun (by simpa using hpair)
  have hbare : r.BareSelf := .node nofun (by simpa using harray)
  have hinner : (ofSegments ["B"]).SelfFree := .of_isPath rfl rfl (by decide)
  have hfree : b.SelfFree := .node (by decide) (by simpa using hinner)
  have hlaw := ((replaceSelf_substitutes r inner b).1 rfl rfl (by decide)).1 hbare
  have hnamed := ((replaceSelf_substitutes r named b).1 rfl rfl (by decide)).2 (by decide)
  exact ⟨hlaw, hnamed.1, hnamed.2, (replaceSelf_substitutes b named r).2 hfree⟩

/-- What the law cannot do without.  A path that carries a length loses it where it is joined to
another one, and keeps it where the type in the end has no path to continue: the two sides differ
for `Self::X` with a length, `Self` and `&B`.  A path without segments leaves a `Self` that stood
behind the first one: `Self::Self` becomes `Self`, and that becomes the path without segments. -/
theorem replaceSelf_not_substitutes :
    (let r : Reference := { segments := ["Self", "X"], length := "3" }
      let a := ofSegments ["Self"]
      let b : Reference := { modifier := .shared, args := [ofSegments ["B"]] }
      (r.replaceSelf a).replaceSelf b ≠ r.replaceSelf (a.replaceSelf b)) ∧
    (let r := ofSegments ["Self", "Self"]
      let a := ofSegments []
      a.segments.head? ≠ some selfSegment ∧ ¬ (r.replaceSelf a).SelfFree ∧
        (r.replaceSelf a).replaceSelf a ≠ r.replaceSelf a) := by
  refine ⟨by decide, by decide, fun hfree => ?_, by decide⟩
  have hunchanged := hfree.replaceSelf_eq (ofSegments [])
  exact absurd hunchanged (by decide)

end ConversionClosure.Reference
