/-
The shape of what is read.

Each form of a reference asks for parts of its own: a path for a segment, a form around another one
for that one alone, an array for a length besides, and a type that is known by its text for the text.
Whoever looks into a reference takes these parts as given.

A reader makes references in many places, and leaves some of them early: behind a macro, behind the
arguments of a call, where a run of tokens is kept as text.  Wherever it does, the node that it makes
has the parts of its form (`Formed`), and so has every node inside of what is read.  Putting a type in
the place of `Self` takes no part away.
-/
import ConversionClosure.Proofs.Substituting
import ConversionClosure.Proofs.Units
import Mathlib.Control.Monad.Basic

namespace ConversionClosure

open Text Token

/-! ### Texts that are not empty -/

theorem Text.Opens.ne_empty {text : String} (h : Opens text) : text ≠ "" := by
  rintro rfl
  exact absurd h (by decide)

theorem Token.Fits.ne_empty {t : Token} (h : t.Fits) : t.text ≠ "" := by
  obtain ⟨kind, text, line⟩ := t
  cases kind with
  | ident | punct => exact Opens.ne_empty h
  | literal => exact h
  | lifetime =>
      rintro rfl
      exact absurd (show isLifetime "" = true from h) (by decide)

theorem Token.join_ne_empty {t : Token} (h : t.text ≠ "") (ts : List Token) :
    join (t :: ts) ≠ "" := by
  cases ts with
  | nil => exact h
  | cons u ts => simp [join, h]

namespace Reference

variable {r s : Reference} {p q : Reference → Prop} {segments : List String}
  {args : List Reference} {length lifetime text : String}

/-! ### Node by node -/

/-- The property holds for the reference itself and for each one inside it, at any depth. -/
inductive Everywhere (p : Reference → Prop) : Reference → Prop
  | node {r : Reference} (own : p r) (inside : ∀ a ∈ r.args, Everywhere p a) : Everywhere p r

namespace Everywhere

theorem own (h : r.Everywhere p) : p r := by
  cases h with
  | node own _ => exact own

theorem inside (h : r.Everywhere p) : ∀ a ∈ r.args, a.Everywhere p := by
  cases h with
  | node _ inside => exact inside

theorem imp (h : r.Everywhere p) (himp : ∀ node, p node → q node) : r.Everywhere q := by
  induction h with
  | node own _ ih => exact .node (himp _ own) ih

end Everywhere

/-- The node has the parts that its form asks for, and no others in their place.  A custom form asks
for none. -/
def Shaped (r : Reference) : Prop :=
  match r.modifier with
  | .path => r.segments ≠ []
  | .shared | .exclusive | .constPointer | .mutPointer | .slice =>
    r.args.length = 1 ∧ r.segments = []
  | .array => r.args.length = 1 ∧ r.segments = [] ∧ r.length ≠ ""
  | .tuple => r.segments = []
  | .verbatim => r.segments.length = 1 ∧ "" ∉ r.segments ∧ r.args = []
  | .custom _ => True

/-- The node is of a standard form and has the parts of that form. -/
structure Formed (r : Reference) : Prop where
  standard : r.modifier ∈ Modifier.standard
  shaped : r.Shaped

/-! ### What a reader makes -/

theorem everywhere_path (hsegments : segments ≠ []) (hargs : ∀ a ∈ args, a.Everywhere Formed) :
    Everywhere Formed { segments, args } :=
  .node ⟨by simp [Modifier.standard], hsegments⟩ hargs

theorem everywhere_ofText (htext : text ≠ "") : (ofText text).Everywhere Formed := by
  refine .node ⟨by simp [ofText, Modifier.standard], rfl, ?_, rfl⟩ (by simp [ofText])
  simpa [ofText] using htext.symm

/-- A form that asks for the reference it stands around, and for nothing else. -/
theorem everywhere_around {modifier : Modifier}
    (hmodifier : modifier ∈ [.shared, .exclusive, .constPointer, .mutPointer, .slice])
    (hinner : r.Everywhere Formed) : Everywhere Formed { modifier, args := [r], lifetime } := by
  refine .node ?_ (List.forall_mem_singleton.mpr hinner)
  simp only [List.mem_cons, List.not_mem_nil, or_false] at hmodifier
  rcases hmodifier with rfl | rfl | rfl | rfl | rfl <;>
    exact ⟨by simp [Modifier.standard], rfl, rfl⟩

/-- **Every node that a reader makes has the parts of its form.** -/
theorem inherits_formed : Inherits Token.Fits Opens fun _ r => r.Everywhere Formed where
  name ht hkind := opens_of_kind ht (.inl hkind)
  withArguments hs _ := opens_segmentText hs _
  path _ _ hargs := everywhere_path (by simp) hargs
  ampersand exclusive _ _ _ hinner := everywhere_around (by cases exclusive <;> decide) hinner
  star exclusive _ hinner := everywhere_around (by cases exclusive <;> decide) hinner
  tuple hargs := .node ⟨by simp [Modifier.standard], rfl⟩ hargs
  slice hinner := everywhere_around (by decide) hinner
  array hinner _ hlength :=
    .node ⟨by simp [Modifier.standard], rfl, rfl, hlength⟩ (List.forall_mem_singleton.mpr hinner)
  verbatim _ hts := everywhere_ofText (join_ne_empty (hts _ (by simp)).ne_empty _)
  expansion hsegments hs _ :=
    everywhere_ofText (((opens_joinSegments hsegments hs).append _).append _).ne_empty
  call hsegments hs _ := everywhere_ofText (opens_joinSegments hsegments (hs.append _)).ne_empty
  callTo hsegments hs _ _ :=
    everywhere_ofText (opens_joinSegments hsegments (((hs.append _).append _).append _)).ne_empty
  argument h := h
  run {run} hrun hne := by
    obtain ⟨t, ts, rfl⟩ := List.exists_cons_of_ne_nil hne
    exact everywhere_ofText (join_ne_empty (hrun t (by simp)).ne_empty ts)
  arguments h _ := h.inside

/-! ### What putting a type in the place of `Self` leaves -/

/-- The shape of a node asks nothing of its arguments but their number. -/
theorem Shaped.map_args (h : r.Shaped) (f : Reference → Reference) :
    Shaped { r with args := r.args.map f } := by
  obtain ⟨modifier, segments, args, length, lifetime⟩ := r
  cases modifier <;> simp_all [Shaped]

theorem shaped_replaceHead (h : Everywhere Shaped ⟨.path, segments, args, length, lifetime⟩)
    (hs : s.Everywhere Shaped) :
    (replaceHead ⟨.path, segments, args, length, lifetime⟩ s).Everywhere Shaped := by
  rcases replaceHead_cases ⟨.path, segments, args, length, lifetime⟩ s with
    hstays | halone | ⟨_, more, -, hpath, hjoined⟩
  · rw [hstays]
    exact h
  · rw [halone]
    exact hs
  · have hsegments : s.segments ≠ [] := by
      have hown := hs.own
      rwa [Shaped, eq_of_beq hpath] at hown
    rw [hjoined]
    exact .node (List.append_ne_nil_of_left_ne_nil hsegments more) h.inside

/-- **A shaped type in the place of `Self` leaves a shaped reference.**  Each node stays, or it makes
way for the type, or the segments of the type come to stand in front of its own. -/
theorem Everywhere.replaceSelf (h : r.Everywhere Shaped) (hs : s.Everywhere Shaped) :
    (r.replaceSelf s).Everywhere Shaped := by
  induction h with
  | @node r own inside ih =>
      obtain ⟨modifier, segments, args, length, lifetime⟩ := r
      have hnode : Everywhere Shaped
          ⟨modifier, segments, args.map (·.replaceSelf s), length, lifetime⟩ :=
        .node (own.map_args _) (by simpa using ih)
      by_cases hverbatim : modifier = .verbatim
      · subst hverbatim
        exact .node own inside
      by_cases hpath : modifier = .path
      · subst hpath
        rw [replaceSelf_path]
        exact shaped_replaceHead hnode hs
      · rw [replaceSelf_wrapped hpath hverbatim]
        exact hnode

end Reference

open Reference

/-- **What is read is well shaped.**  Every node of a type that a text is parsed as has the parts of
its form, at any depth, and so has every node of the trait, the source and the target of each
conversion that is found in a text.  Putting a type in the place of `Self` keeps to that, whatever the
two references are. -/
theorem read_wellShaped :
    (∀ text r, parse text = .ok r → r.Everywhere Formed) ∧
    (∀ text ts found, tokenize text = .ok ts → scan ts = .ok found →
      ∀ d, .conversion d ∈ found → d.trait.Everywhere Formed ∧ d.source.Everywhere Formed ∧
        d.target.Everywhere Formed) ∧
    ∀ r s : Reference, r.Everywhere Shaped → s.Everywhere Shaped →
      (r.replaceSelf s).Everywhere Shaped := by
  refine ⟨?_, ?_, ?_⟩
  · intro text r hparse
    exact good_of_parse inherits_formed (fun _ => allFit_of_tokenize) hparse
  · intro text ts found htokens hscan d hd
    exact Finding.has_of_scan inherits_formed (allFit_of_tokenize htokens) hscan _ hd d rfl
  · intro r s hr hs
    exact hr.replaceSelf hs

/-! ### A header with many forms

The source of the conversion is an array behind a reference.  The target is a tuple of a pointer to a
path with a lifetime and a binding, and of three types that are known by their texts.
-/

namespace ManyForms

def targetText : String := "(*const m::Row<'a, Item = u8>, Fn(A) -> B, m!(x), dyn Any)"

def headerText : String := "impl From<&mut [Self; N + 1]> for " ++ targetText ++ " \x7b\x7d"

def source : Reference where
  modifier := .exclusive
  args := [{ modifier := .array, args := [.ofSegments ["Self"]], length := "N + 1" }]

def target : Reference where
  modifier := .tuple
  args :=
    [{ modifier := .constPointer
       args := [{ segments := ["m", "Row"], args := [ofText "'a", ofText "Item = u8"] }] },
     ofText "Fn(A) -> B", ofText "m!(x)", ofText "dyn Any"]

def decl : ConversionDecl where
  trait := { segments := ["From"], args := [source] }
  source
  target

theorem parse_targetText : parse targetText = .ok target := by decide +kernel

theorem scan_headerText :
    ∃ ts, tokenize headerText = .ok ts ∧ scan ts = .ok [.conversion decl] := by
  have hscan : (tokenize headerText).toOption.map scan = some (.ok [.conversion decl]) := by
    decide +kernel
  cases htokens : tokenize headerText with
  | error fault =>
      rw [htokens] at hscan
      cases hscan
  | ok ts =>
      rw [htokens] at hscan
      exact ⟨ts, rfl, Option.some.inj hscan⟩

end ManyForms

open ManyForms in
/-- The target is well shaped when its text is read by itself, and so are all three types of the
header.  The target in the place of `Self` gives an array of tuples. -/
theorem read_wellShaped_manyForms :
    (parse targetText = .ok target ∧ target.Everywhere Formed) ∧
    (∃ ts, tokenize headerText = .ok ts ∧ scan ts = .ok [.conversion decl]) ∧
    (decl.trait.Everywhere Formed ∧ decl.source.Everywhere Formed ∧
      decl.target.Everywhere Formed) ∧
    (source.replaceSelf target).Everywhere Shaped := by
  obtain ⟨hparse, hscan, hreplace⟩ := read_wellShaped
  obtain ⟨ts, htokens, hfound⟩ := scan_headerText
  have hdecl := hscan headerText ts _ htokens hfound decl (by simp)
  have hshaped : ∀ r : Reference, r.Everywhere Formed → r.Everywhere Shaped :=
    fun r h => h.imp fun _ hformed => hformed.shaped
  exact ⟨⟨parse_targetText, hparse _ _ parse_targetText⟩, scan_headerText, hdecl,
    hreplace _ _ (hshaped _ hdecl.2.1) (hshaped _ hdecl.2.2)⟩

end ConversionClosure
