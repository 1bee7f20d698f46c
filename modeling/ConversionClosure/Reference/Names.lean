/-
The names that a reference mentions.

A name is mentioned by the first segment of a path, or as a word in the length of an array
or in a type known by its text.  Words are runs of ASCII letters, digits and underscores that
do not start with a digit, wherever they stand.
-/
import ConversionClosure.Reference.Basic

namespace ConversionClosure

namespace Text

/-- A character that starts a word. -/
def isWordStart (c : Char) : Bool := c.isAlpha || c == '_'

/-- A character that continues a word. -/
def isWordChar (c : Char) : Bool := isWordStart c || c.isDigit

/-- The words of a list of characters, the first of which has begun with `begun`. -/
def wordsFrom (begun : List Char) : List Char → List (List Char)
  | [] => if begun.isEmpty then [] else [begun]
  | c :: cs =>
    if if begun.isEmpty then isWordStart c else isWordChar c then wordsFrom (begun ++ [c]) cs
    else if begun.isEmpty then wordsFrom [] cs
    else begun :: wordsFrom [] cs

/-- The words of a text. -/
def words (text : String) : List String := (wordsFrom [] text.toList).map String.ofList

end Text

namespace Reference

/-- The names that a node itself mentions. -/
def ownNames (r : Reference) : List String :=
  match r.modifier with
  | .path => r.segments.take 1
  | .array => Text.words r.length
  | .verbatim => Text.words (r.segments.headD "")
  | _ => []

mutual

/-- The names that a reference mentions at any depth. -/
def names : Reference → List String
  | ⟨modifier, segments, args, length, lifetime⟩ =>
    ownNames ⟨modifier, segments, args, length, lifetime⟩ ++ namesAll args

/-- The names that a list of references mentions. -/
def namesAll : List Reference → List String
  | [] => []
  | r :: rs => r.names ++ namesAll rs

end

/-- The reference mentions one of some names. -/
def mentions (r : Reference) (wanted : List String) : Bool := r.names.any wanted.contains

/-- Lifetimes that are never declared. -/
def implicitLifetimes : List String := ["'static", "'_"]

mutual

/-- The lifetimes in a reference from left to right, repetitions included: those of references,
and the types known by a text that starts with a quote. -/
def lifetimes : Reference → List String
  | ⟨modifier, segments, args, _, lifetime⟩ =>
    let own := if lifetime = "" then [] else [lifetime]
    match modifier with
    | .verbatim =>
      own ++ segments.head?.toList.filter fun text => text.toList.head? == some '\''
    | _ => own ++ lifetimesAll args

/-- The lifetimes in a list of references. -/
def lifetimesAll : List Reference → List String
  | [] => []
  | r :: rs => r.lifetimes ++ lifetimesAll rs

end

/-- The lifetimes that a reference needs to have declared, each once, in order of appearance. -/
def declaredLifetimes (r : Reference) : List String :=
  (r.lifetimes.filter fun text => !implicitLifetimes.contains text).eraseDups

end Reference

end ConversionClosure
