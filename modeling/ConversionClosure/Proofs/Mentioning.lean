/-
Names that only an implementation knows.

The parameters of an implementation and `Self` mean nothing outside of it, and an edge of the graph
should not mention them.  A name is mentioned where it stands as a whole word: in the first segment
of a path, in the length of an array or in a type known by its text.

`normalize` puts the target in the place of `Self` and looks for the parameters in what becomes of
the source.  Three ways lead past it (`ConversionDecl.normalize_mentions_iff`).  It never looks for
the parameters in the target.  It leaves `Self` where `replaceSelf` does not reach: inside a text,
and in front of a longer path when the target has none to continue.  And it overlooks a parameter
that is only a part of a segment, as `T` is of `Vec<T>`, or that has letters no word is made of.
-/
import ConversionClosure.Proofs.Registering
import ConversionClosure.Proofs.Substituting

namespace ConversionClosure

/-! ### Words -/

namespace Text

variable {text word : String} {c : Char} {before begun cs after : List Char}

/-- The text has the word as a whole: nothing that would continue a name stands next to it. -/
def HasWord (text word : String) : Prop :=
  ∃ before after : List Char, text.toList = before ++ word.toList ++ after ∧
    (∀ c ∈ before.getLast?, isNameChar c = false) ∧ ∀ c ∈ after.head?, isNameChar c = false

theorem hasWord_self (text : String) : HasWord text text :=
  ⟨[], [], by simp, by simp, by simp⟩

/-- A name has no word but itself. -/
theorem HasWord.eq (h : HasWord text word) (hname : text.toList.all isNameChar = true) :
    text = word := by
  obtain ⟨before, after, htext, hbefore, hafter⟩ := h
  rw [htext, List.all_append, List.all_append, Bool.and_eq_true, Bool.and_eq_true] at hname
  obtain ⟨⟨hleft, -⟩, hright⟩ := hname
  have hbefore : before = [] := by
    cases hlast : before.getLast? with
    | none => exact List.getLast?_eq_none_iff.mp hlast
    | some c =>
        have hc := List.all_eq_true.mp hleft c (List.mem_of_getLast? hlast)
        simp [hbefore c hlast] at hc
  have hafter : after = [] := by
    cases after with
    | nil => rfl
    | cons c after => simp [hafter c rfl] at hright
  subst hbefore hafter
  exact String.toList_inj.mp (by simpa using htext)

/-- A word as `words` finds them. -/
def IsWord (word : String) : Prop :=
  ∃ c cs, word.toList = c :: cs ∧ isWordStart c = true ∧ ∀ d ∈ cs, isWordChar d = true

theorem isWordChar_of_isWordStart (h : isWordStart c = true) : isWordChar c = true := by
  simp [isWordChar, h]

theorem lt_of_isAlpha (h : c.isAlpha = true) : c.val < 128 := by
  rcases Bool.or_eq_true_iff.mp h with hupper | hlower
  · have hle : c.val ≤ 'Z'.val := (of_decide_eq_true hupper).2
    exact UInt32.lt_of_le_of_lt hle (by decide)
  · have hle : c.val ≤ 'z'.val := of_decide_eq_true (Bool.and_eq_true_iff.mp hlower).2
    exact UInt32.lt_of_le_of_lt hle (by decide)

theorem lt_of_isDigit (h : c.isDigit = true) : c.val < 128 := by
  have hle : c.val ≤ '9'.val := of_decide_eq_true (Bool.and_eq_true_iff.mp h).2
  exact UInt32.lt_of_le_of_lt hle (by decide)

/-- What continues a word continues a name. -/
theorem isNameChar_of_isWordChar (h : isWordChar c = true) : isNameChar c = true := by
  simp only [isWordChar, isWordStart, Bool.or_eq_true] at h
  have hascii : ∀ {f : Char → Bool} {ranges : List (Nat × Nat)}, c.val < 128 → f c = true →
      classOf f ranges c = true := fun hsmall hc => by simp [classOf, hsmall, hc]
  obtain (hletter | hline) | hdigit := h
  · simp [isNameChar, isAlphanumeric, isLetter, hascii (lt_of_isAlpha hletter) hletter]
  · simp [isNameChar, hline]
  · exact isNameChar_of_isDigit (hascii (lt_of_isDigit hdigit) hdigit)

/-- Words end at a character that continues none. -/
theorem wordsFrom_append_cons (hc : isWordChar c = false) (begun before cs : List Char) :
    wordsFrom begun (before ++ c :: cs) = wordsFrom begun before ++ wordsFrom [] cs := by
  have hstart : isWordStart c = false := Bool.eq_false_iff.mpr fun h => by
    simp [isWordChar_of_isWordStart h] at hc
  induction before generalizing begun with
  | nil =>
      cases hbegun : begun.isEmpty <;> simp [wordsFrom, hbegun, hc, hstart]
  | cons d before ih =>
      by_cases hgoes : (if begun.isEmpty then isWordStart d else isWordChar d) = true
      · rw [List.cons_append, wordsFrom, wordsFrom, if_pos hgoes, if_pos hgoes, ih]
      · rw [List.cons_append, wordsFrom, wordsFrom, if_neg hgoes, if_neg hgoes]
        split
        · exact ih []
        · rw [ih, List.cons_append]

/-- A word that has begun goes on as long as there are characters to continue it. -/
theorem wordsFrom_append (hbegun : begun ≠ []) (hcs : ∀ d ∈ cs, isWordChar d = true) :
    wordsFrom begun (cs ++ after) = wordsFrom (begun ++ cs) after := by
  induction cs generalizing begun with
  | nil => simp
  | cons c cs ih =>
      have hempty : begun.isEmpty = false := by simpa using hbegun
      simp only [List.cons_append, wordsFrom, hempty, Bool.false_eq_true, if_false,
        hcs c (by simp), if_true]
      rw [ih (by simp) fun d hd => hcs d (by simp [hd]), List.append_assoc, List.singleton_append]

/-- What has begun is a word if nothing continues it. -/
theorem mem_wordsFrom (hbegun : begun ≠ []) (hafter : ∀ d ∈ after.head?, isWordChar d = false) :
    begun ∈ wordsFrom begun after := by
  cases after with
  | nil => simp [wordsFrom, hbegun]
  | cons d after =>
      have hd : isWordChar d = false := hafter d rfl
      simp [wordsFrom, hbegun, hd]

/-- What a text has as a whole word, `words` finds, if it is one for `words`. -/
theorem HasWord.mem_words (h : HasWord text word) (hword : IsWord word) : word ∈ words text := by
  obtain ⟨before, after, htext, hbefore, hafter⟩ := h
  obtain ⟨c, cs, hcs, hstart, hcontinue⟩ := hword
  have hoff : ∀ {d : Char}, isNameChar d = false → isWordChar d = false := fun hd =>
    Bool.eq_false_iff.mpr fun hchar => by simp [isNameChar_of_isWordChar hchar] at hd
  have hmem : c :: cs ∈ wordsFrom [] (c :: cs ++ after) := by
    have hbegun : wordsFrom [] (c :: cs ++ after) = wordsFrom [c] (cs ++ after) := by
      simp [wordsFrom, hstart]
    rw [hbegun, wordsFrom_append (by simp) hcontinue]
    exact mem_wordsFrom (by simp) fun d hd => hoff (hafter d hd)
  have htail : c :: cs ∈ wordsFrom [] text.toList := by
    rw [htext, hcs, List.append_assoc]
    rcases List.eq_nil_or_concat before with rfl | ⟨front, d, rfl⟩
    · exact hmem
    · have hd : isWordChar d = false := hoff (hbefore d (by simp))
      rw [List.concat_eq_append, List.append_assoc, List.singleton_append,
        wordsFrom_append_cons hd]
      exact List.mem_append_right _ hmem
  exact List.mem_map.mpr ⟨c :: cs, htail, by rw [← hcs, String.ofList_toList]⟩

end Text

namespace Reference

open Text

variable {r a target : Reference} {argument : Bool} {word : String} {p q : Reference → Prop}

/-! ### What stands somewhere in a reference -/

/-- The property holds for the reference itself or for one inside it, at any depth. -/
inductive Somewhere (p : Reference → Prop) : Reference → Prop
  | here {r : Reference} (h : p r) : Somewhere p r
  | inside {r a : Reference} (ha : a ∈ r.args) (h : Somewhere p a) : Somewhere p r

theorem somewhere_iff : r.Somewhere p ↔ p r ∨ ∃ a ∈ r.args, a.Somewhere p := by
  constructor
  · intro h
    cases h with
    | here h => exact .inl h
    | inside ha h => exact .inr ⟨_, ha, h⟩
  · rintro (h | ⟨a, ha, h⟩)
    · exact .here h
    · exact .inside ha h

theorem Somewhere.imp (h : r.Somewhere p) (himp : ∀ node, p node → q node) : r.Somewhere q := by
  induction h with
  | here h => exact .here (himp _ h)
  | inside ha _ ih => exact .inside ha ih

/-- The text of a node in which names may stand: the first segment of a path, the length of an
array, or the text of a type that is known by it. -/
def ownText? (r : Reference) : Option String :=
  match r.modifier with
  | .path => r.segments.head?
  | .array => some r.length
  | .verbatim => some (r.segments.headD "")
  | _ => none

/-- The node itself has the word in its text. -/
def HasOwnWord (r : Reference) (word : String) : Prop :=
  ∃ text ∈ r.ownText?, HasWord text word

/-- The node itself has the word where `ownNames` does not find it: in a segment that is more than
the word, or in another text if it is not a word for `words`. -/
def HidesOwnWord (r : Reference) (word : String) : Prop :=
  ∃ text ∈ r.ownText?, HasWord text word ∧ if r.isPath then text ≠ word else ¬ IsWord word

/-- `Self` stands in front of a longer path. -/
def ContinuesSelf (r : Reference) : Prop :=
  r.isPath = true ∧ r.segments.head? = some selfSegment ∧ Continued r.segments.tail r.args

/-- The node itself has a `Self` that does not make way for the target: inside a text, or in front
of a longer path while the target has none to continue. -/
def KeepsOwnSelf (r target : Reference) : Prop :=
  (∃ text ∈ r.ownText?, HasWord text selfSegment ∧ (r.isPath → text ≠ selfSegment)) ∨
    r.ContinuesSelf ∧ (target.isPath && target.args.isEmpty) = false

/-- The word stands in the reference at some depth. -/
def MentionsWord (r : Reference) (word : String) : Prop := r.Somewhere (·.HasOwnWord word)

/-- The word stands in the reference at some depth where `names` does not find it. -/
def HidesWord (r : Reference) (word : String) : Prop := r.Somewhere (·.HidesOwnWord word)

/-- A `Self` stands in the reference at some depth that does not make way for the target. -/
def KeepsSelf (r target : Reference) : Prop := r.Somewhere (·.KeepsOwnSelf target)

theorem mem_names_iff : word ∈ r.names ↔ word ∈ r.ownNames ∨ ∃ a ∈ r.args, word ∈ a.names := by
  have hall : ∀ rs : List Reference, word ∈ namesAll rs ↔ ∃ a ∈ rs, word ∈ a.names := by
    intro rs
    induction rs with
    | nil => simp [namesAll]
    | cons r rs ih => simp [namesAll, ih]
  obtain ⟨modifier, segments, args, length, lifetime⟩ := r
  rw [names, List.mem_append, hall]

/-- A word that is mentioned and is no name of the reference is hidden in it. -/
theorem MentionsWord.hidesWord (h : r.MentionsWord word) (hnames : word ∉ r.names) :
    r.HidesWord word := by
  unfold MentionsWord at h
  induction h with
  | @here r hown =>
      obtain ⟨text, htext, hword⟩ := hown
      refine .here ⟨text, htext, hword, ?_⟩
      have hnone : word ∉ r.ownNames := fun hmem => hnames (mem_names_iff.mpr (.inl hmem))
      have hwords : word ∉ words text → ¬ IsWord word := fun hmem h => hmem (hword.mem_words h)
      obtain ⟨modifier, segments, args, length, lifetime⟩ := r
      cases modifier <;> simp only [ownText?, Option.mem_def, reduceCtorEq] at htext
      case path =>
        obtain ⟨more, rfl⟩ := List.head?_eq_some_iff.mp htext
        rintro rfl
        exact hnone (by simp [ownNames])
      case array =>
        cases htext
        exact hwords hnone
      case verbatim =>
        cases htext
        exact hwords hnone
  | inside ha _ ih =>
      exact .inside ha (ih fun hmem => hnames (mem_names_iff.mpr (.inr ⟨_, ha, hmem⟩)))

theorem HidesWord.mentionsWord (h : r.HidesWord word) : r.MentionsWord word :=
  Somewhere.imp h fun _ ⟨text, htext, hword, _⟩ => ⟨text, htext, hword⟩

/-- A path of one name mentions no other. -/
theorem mentionsWord_name {name : String} (hname : name.toList.all isNameChar = true)
    (h : (ofSegments [name]).MentionsWord word) : name = word := by
  cases h with
  | here h =>
      obtain ⟨text, htext, hword⟩ := h
      cases htext
      exact hword.eq hname
  | inside ha _ => cases ha

/-! ### What the target in the place of `Self` brings and leaves -/

/-- Whatever continues `Self`, the path has the same arguments in the end. -/
theorem replaceHead_args {more : List String} {args : List Reference} (h : Continued more args) :
    (replaceHead { segments := selfSegment :: more, args } target).args = args := by
  cases hplain : target.isPath && target.args.isEmpty with
  | true =>
      obtain ⟨hpath, hargs⟩ : target.isPath = true ∧ target.args = [] := by simpa using hplain
      rw [replaceHead_continued h hpath hargs]
  | false => rw [replaceHead_stuck h hplain]

/-- A path as it is read has segments and arguments alone. -/
theorem Sound.exists_path (h : Sound argument r) (hpath : r.isPath = true) :
    ∃ first more, r.segments = first :: more ∧ r.length = "" ∧ r.lifetime = "" := by
  cases h with
  | path _ _ => exact ⟨_, _, rfl, rfl, rfl⟩
  | ampersand exclusive _ _ | star exclusive _ => cases exclusive <;> cases hpath
  | tuple _ | slice _ | array _ | verbatim _ => cases hpath

/-- Node by node, `p` after the target is put in the place of `Self` is `q` before. -/
structure Carried (target : Reference) (p q : Reference → Prop) : Prop where
  same : ∀ {modifier : Modifier} {segments : List String} {args : List Reference}
    {length lifetime : String} (f : Reference → Reference),
    (modifier = .path → segments.head? ≠ some selfSegment) →
      (p ⟨modifier, segments, args.map f, length, lifetime⟩ ↔
        q ⟨modifier, segments, args, length, lifetime⟩)
  alone : ¬ q { segments := [selfSegment] }
  continued : ∀ {more : List String} {args : List Reference} (f : Reference → Reference),
    Continued more args →
      (p (replaceHead { segments := selfSegment :: more, args := args.map f } target) ↔
        q { segments := selfSegment :: more, args })
  absent : ¬ target.Somewhere p

/-- What is carried node by node is carried by the whole reference. -/
theorem Carried.somewhere_iff (h : Carried target p q) (hr : Sound argument r) :
    (r.replaceSelf target).Somewhere p ↔ r.Somewhere q := by
  induction r using induction generalizing argument with
  | node r ih =>
      obtain ⟨modifier, segments, args, length, lifetime⟩ := r
      have hargs : (∃ a ∈ args.map (·.replaceSelf target), a.Somewhere p) ↔
          ∃ a ∈ args, a.Somewhere q := by
        simp only [List.mem_map, exists_exists_and_eq_and]
        exact exists_congr fun a => and_congr_right fun ha => ih a ha (hr.args a ha)
      rw [Reference.somewhere_iff (p := q)]
      by_cases hverbatim : modifier = .verbatim
      · subst hverbatim
        obtain ⟨text, heq⟩ := hr.exists_ofText rfl
        obtain rfl : args = [] := congrArg Reference.args heq
        rw [replaceSelf_verbatim, Reference.somewhere_iff]
        exact or_congr (@h.same .verbatim segments [] length lifetime id (by simp)) (by simp)
      by_cases hform : modifier = .path
      · subst hform
        obtain ⟨first, more, hsegments⟩ := hr.exists_path rfl
        obtain ⟨rfl, rfl, rfl⟩ : segments = first :: more ∧ length = "" ∧ lifetime = "" := hsegments
        rw [replaceSelf_path]
        by_cases hself : first = selfSegment
        · subst hself
          by_cases hmore : Continued more args
          · rw [Reference.somewhere_iff, replaceHead_args (hmore.map _)]
            exact or_congr (h.continued _ hmore) hargs
          · obtain ⟨rfl, rfl⟩ : more = [] ∧ args = [] := by simpa [Continued] using hmore
            rw [List.map_nil, replaceHead_alone]
            exact iff_of_false h.absent (by simpa using h.alone)
        · have hhead : (first :: more).head? ≠ some selfSegment := by simpa using hself
          rw [replaceHead_of_ne hhead, Reference.somewhere_iff]
          exact or_congr (h.same _ fun _ => hhead) hargs
      · rw [replaceSelf_wrapped hform hverbatim, Reference.somewhere_iff]
        exact or_congr (h.same _ fun hpath => absurd hpath hform) hargs

/-- A target that has a path to continue has the first segment of the joined path. -/
theorem head?_joined {first : String} {more : List String} {args : List Reference}
    (ht : Sound false target) (hplain : (target.isPath && target.args.isEmpty) = true)
    (hmore : Continued more args)
    (h : (replaceHead { segments := selfSegment :: more, args } target).ownText? = some first) :
    target.ownText? = some first := by
  obtain ⟨hpath, hargs⟩ : target.isPath = true ∧ target.args = [] := by simpa using hplain
  obtain ⟨segment, rest, hsegments, -⟩ := ht.exists_segments hpath
  rw [replaceHead_continued hmore hpath hargs, hsegments] at h
  simpa [ownText?, eq_of_beq hpath, hsegments] using h

/-- `Self` has no other word in it. -/
theorem eq_selfSegment_of_hasWord (h : HasWord selfSegment word) : selfSegment = word :=
  h.eq (by decide)

variable (ht : Sound false target)

include ht

/-- **The `Self` that is left is the one that is kept**, if the target does not bring one. -/
theorem mentionsWord_self_iff (hr : Sound argument r)
    (hself : ¬ target.MentionsWord selfSegment) :
    (r.replaceSelf target).MentionsWord selfSegment ↔ r.KeepsSelf target := by
  have hcarried : Carried target (·.HasOwnWord selfSegment) (·.KeepsOwnSelf target) := by
    refine ⟨fun {modifier segments args length lifetime} f hhead => ?_, ?_, ?_, hself⟩
    · have hnone : ¬ ContinuesSelf ⟨modifier, segments, args, length, lifetime⟩ :=
        fun ⟨hpath, hfirst, _⟩ => hhead (eq_of_beq hpath) hfirst
      have hsame : ∀ text, text ∈ ownText? ⟨modifier, segments, args, length, lifetime⟩ →
          isPath ⟨modifier, segments, args, length, lifetime⟩ = true → text ≠ selfSegment := by
        rintro text htext hpath rfl
        obtain rfl : modifier = .path := eq_of_beq hpath
        exact hhead rfl htext
      simp only [HasOwnWord, KeepsOwnSelf, hnone, false_and, or_false]
      exact exists_congr fun text => and_congr_right fun htext =>
        (and_iff_left (hsame text htext)).symm
    · simp [KeepsOwnSelf, ownText?, isPath, ContinuesSelf, Continued]
    · intro more args f hmore
      cases hplain : target.isPath && target.args.isEmpty with
      | true =>
          have hkept : ¬ KeepsOwnSelf { segments := selfSegment :: more, args } target := by
            unfold KeepsOwnSelf
            rw [hplain]
            simp [ownText?, isPath]
          refine iff_of_false ?_ hkept
          rintro ⟨text, htext, hword⟩
          exact hself (.here ⟨text, head?_joined ht hplain (hmore.map f) htext, hword⟩)
      | false =>
          rw [replaceHead_stuck (hmore.map f) hplain]
          exact iff_of_true ⟨selfSegment, rfl, hasWord_self _⟩ (.inr ⟨⟨rfl, rfl, hmore⟩, hplain⟩)
  exact hcarried.somewhere_iff hr

/-- **What is hidden stays hidden**, if the target does not mention the word. -/
theorem hidesWord_replaceSelf_iff (hr : Sound argument r) (habsent : ¬ target.MentionsWord word) :
    (r.replaceSelf target).HidesWord word ↔ r.HidesWord word := by
  have hcarried : Carried target (·.HidesOwnWord word) (·.HidesOwnWord word) := by
    have hself : ∀ {more : List String} {args : List Reference},
        ¬ HidesOwnWord { segments := selfSegment :: more, args } word := by
      rintro more args ⟨text, htext, hword, hne⟩
      cases htext
      exact hne (eq_selfSegment_of_hasWord hword)
    refine ⟨fun f hhead => Iff.rfl, hself, ?_, fun h => habsent (HidesWord.mentionsWord h)⟩
    intro more args f hmore
    refine iff_of_false ?_ hself
    cases hplain : target.isPath && target.args.isEmpty with
    | true =>
        rintro ⟨text, htext, hword, -⟩
        exact habsent (.here ⟨text, head?_joined ht hplain (hmore.map f) htext, hword⟩)
    | false =>
        rw [replaceHead_stuck (hmore.map f) hplain]
        exact hself
  exact hcarried.somewhere_iff hr

end Reference

/-! ### Declarations that are accepted -/

namespace ConversionDecl

open Reference

variable {d : ConversionDecl} {p : Reference × Reference}

/-- The source of an accepted pair has no parameter among its names. -/
theorem not_mem_names_of_normalize (h : d.normalize = .ok p) :
    ∀ name ∈ d.typeParams, name ∉ p.1.names := by
  obtain ⟨rfl, -⟩ := of_normalize h
  intro name hname hmem
  have hmentions : (d.source.replaceSelf d.target).mentions d.typeParams = true :=
    List.any_eq_true.mpr ⟨name, hmem, by simpa using hname⟩
  simp only [normalize, hmentions, if_true] at h
  split at h <;> cases h

/-- **When a name leaks into the graph.**  If a declaration is accepted and its target does not
mention `Self`, then one of its ends mentions `Self` or a parameter of the implementation exactly
if the target mentions a parameter, or the source keeps a `Self`, or it hides a parameter. -/
theorem normalize_mentions_iff (hsound : d.IsSound) (h : d.normalize = .ok p)
    (hself : ¬ d.target.MentionsWord selfSegment) :
    (∃ name ∈ selfSegment :: d.typeParams, p.1.MentionsWord name ∨ p.2.MentionsWord name) ↔
      (∃ name ∈ d.typeParams, d.target.MentionsWord name) ∨ d.source.KeepsSelf d.target ∨
        ∃ name ∈ d.typeParams, d.source.HidesWord name := by
  have hnames := not_mem_names_of_normalize h
  obtain ⟨rfl, -⟩ := of_normalize h
  have hkept := mentionsWord_self_iff hsound.target hsound.source hself
  constructor
  · rintro ⟨name, hname, hmentions⟩
    rcases List.mem_cons.mp hname with rfl | hparam
    · exact .inr (.inl (hkept.mp (hmentions.resolve_right hself)))
    by_cases htarget : d.target.MentionsWord name
    · exact .inl ⟨name, hparam, htarget⟩
    have hhidden := (hmentions.resolve_right htarget).hidesWord (hnames name hparam)
    exact .inr (.inr ⟨name, hparam,
      (hidesWord_replaceSelf_iff hsound.target hsound.source htarget).mp hhidden⟩)
  · rintro (⟨name, hparam, htarget⟩ | hkeeps | ⟨name, hparam, hhidden⟩)
    · exact ⟨name, List.mem_cons_of_mem _ hparam, .inr htarget⟩
    · exact ⟨selfSegment, List.mem_cons_self, .inl (hkept.mpr hkeeps)⟩
    · refine ⟨name, List.mem_cons_of_mem _ hparam, ?_⟩
      by_cases htarget : d.target.MentionsWord name
      · exact .inr htarget
      · have hthere := (hidesWord_replaceSelf_iff hsound.target hsound.source htarget).mpr hhidden
        exact .inl hthere.mentionsWord

/-- Nothing leaks from `impl<T> From<&Self> for B`: its target stands in the place of `Self`. -/
theorem normalize_mentions_iff_borrowed :
    let b := ofSegments ["B"]
    let d : ConversionDecl :=
      { trait := ofSegments ["From"]
        source := { modifier := .shared, args := [ofSegments ["Self"]] }
        target := b
        params := ["T"] }
    let p := (({ modifier := .shared, args := [b] } : Reference), b)
    d.normalize = .ok p ∧
      ¬ ∃ name ∈ ["Self", "T"], p.1.MentionsWord name ∨ p.2.MentionsWord name := by
  intro b d p
  have hsound : d.IsSound :=
    ⟨.ampersand false (.inl rfl) (.path (by decide) (by simp)), .path (by decide) (by simp)⟩
  have hnormalize : d.normalize = .ok p := by decide
  have hb : ∀ {name}, b.MentionsWord name → "B" = name := mentionsWord_name (by decide)
  have hself : ¬ b.MentionsWord selfSegment := fun h => absurd (hb h) (by decide)
  refine ⟨hnormalize, fun hleak => ?_⟩
  obtain ⟨name, hname, h⟩ | hkeeps | ⟨name, hname, h⟩ :=
    (normalize_mentions_iff hsound hnormalize hself).mp hleak
  · obtain rfl := hb h
    exact absurd hname (by decide)
  · rcases somewhere_iff.mp hkeeps with hown | ⟨inner, hinner, h⟩
    · simp [KeepsOwnSelf, ownText?, ContinuesSelf, isPath, d] at hown
    · obtain rfl : inner = ofSegments ["Self"] := List.mem_singleton.mp hinner
      rcases somewhere_iff.mp h with hown | ⟨_, hnone, _⟩
      · simp [KeepsOwnSelf, ownText?, ContinuesSelf, isPath, ofSegments, Continued,
          selfSegment] at hown
      · cases hnone
  · rcases somewhere_iff.mp h with ⟨text, htext, -⟩ | ⟨inner, hinner, h⟩
    · cases htext
    · obtain rfl : inner = ofSegments ["Self"] := List.mem_singleton.mp hinner
      have hsame : "Self" = name := mentionsWord_name (by decide) (HidesWord.mentionsWord h)
      subst hsame
      exact absurd hname (by decide)

/-- Three names that leak: `T` is a part of the segment `Vec<T>`, nobody looks for `N` in the target
`[u8; N]`, and `Self` is not replaced in the text of `dyn Fn(Self)`. -/
theorem normalize_mentions_parameter :
    let segment := ofSegments ["Vec<T>", "Item"]
    let sized : Reference := { modifier := .array, args := [ofSegments ["u8"]], length := "N" }
    let closure := ofText "dyn Fn(Self)"
    let a := ofSegments ["A"]
    let b := ofSegments ["B"]
    let trait := ofSegments ["From"]
    (parse "Vec<T>::Item" = .ok segment ∧
      normalize { trait, source := segment, target := b, params := ["T"] } = .ok (segment, b) ∧
      segment.MentionsWord "T") ∧
    (parse "[u8; N]" = .ok sized ∧
      normalize { trait, source := a, target := sized, params := ["N"] } = .ok (a, sized) ∧
      sized.MentionsWord "N") ∧
    (parse "dyn Fn(Self)" = .ok closure ∧
      normalize { trait, source := closure, target := b, params := [] } = .ok (closure, b) ∧
      closure.MentionsWord "Self") ∧
    ¬ b.MentionsWord "Self" ∧ ¬ sized.MentionsWord "Self" := by
  intro segment sized closure a b trait
  have hb : ¬ b.MentionsWord "Self" := fun h => absurd (mentionsWord_name (by decide) h) (by decide)
  have hsized : ¬ sized.MentionsWord "Self" := by
    intro h
    rcases somewhere_iff.mp h with ⟨text, htext, hown⟩ | ⟨inner, hinner, h⟩
    · cases htext
      exact absurd (hown.eq (by decide)) (by decide)
    · obtain rfl : inner = ofSegments ["u8"] := List.mem_singleton.mp hinner
      exact absurd (mentionsWord_name (by decide) h) (by decide)
  refine ⟨⟨by decide +kernel, by decide, ?_⟩, ⟨by decide +kernel, by decide, ?_⟩,
    ⟨by decide +kernel, by decide, ?_⟩, hb, hsized⟩
  · exact .here ⟨"Vec<T>", rfl, ['V', 'e', 'c', '<'], ['>'], rfl, by simp; decide, by simp; decide⟩
  · exact .here ⟨"N", rfl, Text.hasWord_self "N"⟩
  · exact .here ⟨"dyn Fn(Self)", rfl, ['d', 'y', 'n', ' ', 'F', 'n', '('], [')'], rfl,
      by simp; decide, by simp; decide⟩

end ConversionDecl

end ConversionClosure
