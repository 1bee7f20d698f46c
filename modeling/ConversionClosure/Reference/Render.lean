/-
The text of a reference, in the syntax of the source language.
-/
import ConversionClosure.Reference.Basic

namespace ConversionClosure.Reference

/-- Texts with a comma and a blank between them. -/
def commaSeparated (texts : List String) : String := ", ".intercalate texts

/-- What stands between the ampersand of a reference and its type. -/
def lifetimeText (lifetime : String) : String := if lifetime = "" then "" else lifetime ++ " "

mutual

/-- The text of a reference. -/
def render : Reference → String
  | ⟨modifier, segments, args, length, lifetime⟩ =>
    let inner := renderAll args
    let first := inner.headD ""
    match modifier with
    | .path =>
      "::".intercalate segments ++
        (if inner.isEmpty then "" else "<" ++ commaSeparated inner ++ ">")
    | .shared => "&" ++ lifetimeText lifetime ++ first
    | .exclusive => "&" ++ lifetimeText lifetime ++ "mut " ++ first
    | .constPointer => "*const " ++ first
    | .mutPointer => "*mut " ++ first
    | .tuple => if inner.length = 1 then "(" ++ first ++ ",)" else "(" ++ commaSeparated inner ++ ")"
    | .slice => "[" ++ first ++ "]"
    | .array => "[" ++ first ++ "; " ++ length ++ "]"
    | .verbatim | .custom _ => segments.headD ""

/-- The texts of a list of references. -/
def renderAll : List Reference → List String
  | [] => []
  | r :: rs => r.render :: renderAll rs

end

@[simp] theorem renderAll_eq_map (rs : List Reference) : renderAll rs = rs.map render := by
  induction rs with
  | nil => rfl
  | cons r rs ih => rw [renderAll, ih, List.map_cons]

end ConversionClosure.Reference
