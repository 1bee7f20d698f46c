/-
References to types.

A reference names a type the way it is written in source: a path of segments with the
arguments of the last one, or a form wrapped around other references.  All forms share one
node, tagged by its modifier; a node may carry parts that its form has no use for, and it may
lack parts that its form needs.

Lifetimes do not change which type is meant.  `elided` drops them all, and two references
are equivalent, `a ≈ b`, when they agree once their lifetimes are elided.
-/

namespace ConversionClosure

/-- The form of a reference. -/
inductive Modifier
  | path
  | shared
  | exclusive
  | constPointer
  | mutPointer
  | tuple
  | slice
  | array
  | verbatim
  | custom (text : String)
deriving DecidableEq, Repr, Hashable

namespace Modifier

/-- The text that stands for a form in data. -/
def text : Modifier → String
  | path => ""
  | shared => "&"
  | exclusive => "&mut"
  | constPointer => "*const"
  | mutPointer => "*mut"
  | tuple => "()"
  | slice => "[]"
  | array => "[;]"
  | verbatim => "opaque"
  | custom text => text

/-- The forms other than custom ones. -/
def standard : List Modifier :=
  [path, shared, exclusive, constPointer, mutPointer, tuple, slice, array, verbatim]

/-- The form that a text stands for. -/
def ofText (s : String) : Modifier := (standard.find? fun m => m.text == s).getD (custom s)

/-- No text of a form is lost. -/
theorem text_ofText (s : String) : (ofText s).text = s := by
  unfold ofText
  cases hfind : standard.find? fun m => m.text == s with
  | none => rfl
  | some m => simpa using List.find?_some hfind

end Modifier

/-- A reference to a type. -/
structure Reference where
  modifier : Modifier := .path
  segments : List String := []
  args : List Reference := []
  /-- The length of an array, as source text. -/
  length : String := ""
  /-- The lifetime of a reference, with its quote. -/
  lifetime : String := ""
deriving Repr, Hashable, Inhabited

namespace Reference

/-- The path of some segments, without arguments. -/
def ofSegments (segments : List String) : Reference := { segments }

/-- A type known by its text alone. -/
def ofText (text : String) : Reference := { modifier := .verbatim, segments := [text] }

/-- The reference is a path. -/
def isPath (r : Reference) : Bool := r.modifier == .path

/-- Induction over a reference and the references inside it. -/
@[elab_as_elim]
theorem induction {motive : Reference → Prop}
    (node : ∀ r : Reference, (∀ a ∈ r.args, motive a) → motive r) (r : Reference) : motive r :=
  @Reference.rec motive (fun rs => ∀ a ∈ rs, motive a) (fun _ _ _ _ _ ih => node _ ih)
    (by simp) (fun _ _ h hs => by simpa using ⟨h, hs⟩) r

mutual

/-- Equality of references, decided node by node. -/
def decEq : (a b : Reference) → Decidable (a = b)
  | ⟨m, s, as, l, t⟩, ⟨m', s', as', l', t'⟩ =>
    if h : m = m' ∧ s = s' ∧ l = l' ∧ t = t' then
      match decEqAll as as' with
      | isTrue h' => isTrue (by simp [h, h'])
      | isFalse h' => isFalse (by simp [h'])
    else isFalse (by simp only [mk.injEq]; exact fun ⟨hm, hs, _, hl, ht⟩ => h ⟨hm, hs, hl, ht⟩)

/-- Equality of lists of references. -/
def decEqAll : (as bs : List Reference) → Decidable (as = bs)
  | [], [] => isTrue rfl
  | [], _ :: _ => isFalse (by simp)
  | _ :: _, [] => isFalse (by simp)
  | a :: as, b :: bs =>
    match decEq a b, decEqAll as bs with
    | isTrue h, isTrue h' => isTrue (by rw [h, h'])
    | isFalse h, _ => isFalse (by simp [h])
    | _, isFalse h => isFalse (by simp [h])

end

instance : DecidableEq Reference := decEq

/-! ### Equality up to lifetimes -/

mutual

/-- The reference without its lifetimes. -/
def elided : Reference → Reference
  | ⟨modifier, segments, args, length, _⟩ => ⟨modifier, segments, elidedAll args, length, ""⟩

/-- The references of a list without their lifetimes. -/
def elidedAll : List Reference → List Reference
  | [] => []
  | r :: rs => r.elided :: elidedAll rs

end

@[simp] theorem elidedAll_eq_map (rs : List Reference) : elidedAll rs = rs.map elided := by
  induction rs with
  | nil => rfl
  | cons r rs ih => rw [elidedAll, ih, List.map_cons]

/-- Two references are equivalent when they differ in lifetimes at most. -/
instance : Setoid Reference where
  r a b := a.elided = b.elided
  iseqv := ⟨fun _ => rfl, Eq.symm, Eq.trans⟩

instance (a b : Reference) : Decidable (a ≈ b) := inferInstanceAs (Decidable (a.elided = b.elided))

@[simp] theorem elided_elided (r : Reference) : r.elided.elided = r.elided := by
  induction r using induction with
  | node r ih =>
    obtain ⟨m, s, as, l, t⟩ := r
    simp only [elided, elidedAll_eq_map, List.map_map, mk.injEq, true_and, and_true]
    exact List.map_congr_left ih

/-! ### Questions about one reference -/

mutual

/-- Type arguments appear somewhere in the reference. -/
def isGeneric : Reference → Bool
  | ⟨.path, segments, args, _, _⟩ =>
    !args.isEmpty || segments.any fun segment => segment.toList.contains '<'
  | ⟨.verbatim, segments, _, _, _⟩ => (segments.headD "").toList.contains '<'
  | ⟨_, _, args, _, _⟩ => anyGeneric args

/-- Type arguments appear somewhere in a list of references. -/
def anyGeneric : List Reference → Bool
  | [] => false
  | r :: rs => r.isGeneric || anyGeneric rs

end

/-- The reference is a path whose last segments are `suffix`, which is not empty. -/
def endsWith (r : Reference) (suffix : List String) : Bool :=
  r.isPath && !suffix.isEmpty && suffix.isSuffixOf r.segments

end Reference

end ConversionClosure
