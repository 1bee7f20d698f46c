/-
What a reference has to have.

A reference that was read from text has every part that its form needs, but one that is put
together by hand may lack some.  A question about it has an answer as long as no part is
missing that the question looks at; what it does not look at, such as the further arguments
of a pointer, may be missing too.  There is one predicate for each question: the text of a
reference, whether it is generic, whether it mentions some names, and its lifetimes.
-/
import ConversionClosure.Fault
import ConversionClosure.Reference.Names
import ConversionClosure.Reference.Render

namespace ConversionClosure

/-- An answer that needs the parts it looks at to be there. -/
def answerIf {α : Type} (complete : Bool) (answer : α) : Except Fault α :=
  if complete then .ok answer else .error .incompleteReference

namespace Reference

/-! ### Texts -/

mutual

/-- Every part that the text of the reference shows is there. -/
def hasText : Reference → Bool
  | ⟨modifier, segments, args, _, _⟩ =>
    match modifier with
    | .path | .tuple => allHaveText args
    | .verbatim | .custom _ => !segments.isEmpty
    | _ => firstHasText args

/-- Every reference of a list has a text. -/
def allHaveText : List Reference → Bool
  | [] => true
  | r :: rs => r.hasText && allHaveText rs

/-- There is a first reference in a list, and it has a text. -/
def firstHasText : List Reference → Bool
  | [] => false
  | r :: _ => r.hasText

end

/-- The text of a reference, if it has one. -/
def text (r : Reference) : Except Fault String := answerIf r.hasText r.render

/-! ### Type arguments -/

mutual

/-- What is there of the reference settles whether it is generic. -/
def settlesGeneric : Reference → Bool
  | ⟨modifier, segments, args, _, _⟩ =>
    match modifier with
    | .path => true
    | .verbatim => !segments.isEmpty
    | _ => allSettleGeneric args

/-- What is there of a list of references settles whether one is generic; nothing after the first
one that is generic is looked at. -/
def allSettleGeneric : List Reference → Bool
  | [] => true
  | r :: rs => r.settlesGeneric && (r.isGeneric || allSettleGeneric rs)

end

/-- Whether the reference is generic, if that is settled. -/
def generic (r : Reference) : Except Fault Bool := answerIf r.settlesGeneric r.isGeneric

/-! ### Names -/

mutual

/-- What is there of the reference settles whether it mentions some names; the arguments are looked
at only if the node itself mentions none. -/
def settlesMention (wanted : List String) : Reference → Bool
  | ⟨modifier, segments, args, length, lifetime⟩ =>
    (modifier != .verbatim || !segments.isEmpty) &&
      ((ownNames ⟨modifier, segments, args, length, lifetime⟩).any wanted.contains ||
        allSettleMention wanted args)

/-- What is there of a list of references settles whether one mentions some names; nothing after the
first one that does is looked at. -/
def allSettleMention (wanted : List String) : List Reference → Bool
  | [] => true
  | r :: rs => r.settlesMention wanted && (r.mentions wanted || allSettleMention wanted rs)

end

/-! ### Lifetimes -/

mutual

/-- What is there of the reference settles its lifetimes. -/
def settlesLifetimes : Reference → Bool
  | ⟨modifier, segments, args, _, _⟩ =>
    match modifier with
    | .verbatim => !segments.isEmpty
    | _ => allSettleLifetimes args

/-- What is there of a list of references settles their lifetimes. -/
def allSettleLifetimes : List Reference → Bool
  | [] => true
  | r :: rs => r.settlesLifetimes && allSettleLifetimes rs

end

end Reference

end ConversionClosure
