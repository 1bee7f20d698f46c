/-
What `Self` stands for.

Inside an item a path that starts with `Self` means the type that the item is about.
`replaceSelf` puts that type in its place.
-/
import ConversionClosure.Reference.Basic

namespace ConversionClosure.Reference

/-- The segment that stands for the type an item is about. -/
def selfSegment : String := "Self"

/-- A path node once its arguments are done: `Self` alone becomes the type, and a longer path
that starts with `Self` continues the path of the type, unless the type has no path to continue. -/
def replaceHead (node concrete : Reference) : Reference :=
  match node.segments with
  | [] => node
  | head :: tail =>
    if head = selfSegment then
      if tail.isEmpty && node.args.isEmpty then concrete
      else if concrete.isPath && concrete.args.isEmpty then
        { segments := concrete.segments ++ tail, args := node.args }
      else node
    else node

mutual

/-- The reference with `concrete` in the place of `Self`. -/
def replaceSelf : (r concrete : Reference) → Reference
  | ⟨modifier, segments, args, length, lifetime⟩, concrete =>
    match modifier with
    | .path => replaceHead ⟨.path, segments, replaceSelfAll args concrete, length, lifetime⟩ concrete
    | .verbatim => ⟨.verbatim, segments, args, length, lifetime⟩
    | modifier => ⟨modifier, segments, replaceSelfAll args concrete, length, lifetime⟩

/-- The references of a list with `concrete` in the place of `Self`. -/
def replaceSelfAll : (rs : List Reference) → (concrete : Reference) → List Reference
  | [], _ => []
  | r :: rs, concrete => r.replaceSelf concrete :: replaceSelfAll rs concrete

end

@[simp] theorem replaceSelfAll_eq_map (rs : List Reference) (concrete : Reference) :
    replaceSelfAll rs concrete = rs.map (·.replaceSelf concrete) := by
  induction rs with
  | nil => rfl
  | cons r rs ih => rw [replaceSelfAll, ih, List.map_cons]

end ConversionClosure.Reference
