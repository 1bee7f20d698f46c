/-
From declarations to the graph of direct conversions.

A declaration counts when its trait path ends with the name of the conversion trait.  It is
normalized by putting its target in the place of `Self`, and dropped with the first reason
that applies: its target has arguments, its source mentions a parameter of the
implementation, or both ends are the same type.
-/
import ConversionClosure.Graph.Basic
import ConversionClosure.Reference.Names
import ConversionClosure.Reference.Substitution
import ConversionClosure.Work.Metered

namespace ConversionClosure

/-- Why a declaration is dropped. -/
inductive DropReason
  | genericTarget
  | genericSource
  | selfLoop
deriving DecidableEq, Repr

namespace DropReason

/-- The name of a reason. -/
def text : DropReason → String
  | genericTarget => "generic_target"
  | genericSource => "generic_source"
  | selfLoop => "self_loop"

end DropReason

/-- A declaration that was dropped, as it was written. -/
structure Dropped where
  path : Path
  source : Reference
  target : Reference
  reason : DropReason
deriving DecidableEq, Repr

namespace Dropped

/-- Both ends have texts. -/
def hasTexts (d : Dropped) : Bool := d.source.hasText && d.target.hasText

/-- The texts by which dropped declarations are sorted. -/
def key (d : Dropped) : List String :=
  [d.path.toText, d.source.render, d.target.render, d.reason.text]

/-- The text of a dropped declaration. -/
def render (d : Dropped) : String :=
  d.path.toText ++ ": " ++ Edge.render d.source d.target ++ ": " ++ d.reason.text

end Dropped

namespace ConversionDecl

/-- The name of the conversion trait, unless another one is configured. -/
def defaultTrait : String := "From"

/-- The declaration is one of a conversion: its trait path ends with the name. -/
def isConversion (d : ConversionDecl) (name : String) : Bool := d.trait.endsWith [name]

/-- The parameters of the implementation that are not lifetimes. -/
def typeParams (d : ConversionDecl) : List String :=
  d.params.filter fun name => name.toList.head? != some '\''

/-- The two ends of the conversion, or why there is none. -/
def normalize (d : ConversionDecl) : Except DropReason (Reference × Reference) :=
  if d.target.isGeneric then .error .genericTarget
  else
    let source := d.source.replaceSelf d.target
    if source.mentions d.typeParams then .error .genericSource
    else if source ≈ d.target then .error .selfLoop
    else .ok (source, d.target)

/-- What is there of the declaration settles what `normalize` makes of it: its source is looked at
only if its target is not generic, and only for the parameters of the implementation. -/
def isSettled (d : ConversionDecl) : Bool :=
  d.target.settlesGeneric &&
    (d.target.isGeneric || d.typeParams.isEmpty ||
      (d.source.replaceSelf d.target).settlesMention d.typeParams)

/-- What becomes of the declaration, if that is settled. -/
def verdict (d : ConversionDecl) : Except Fault (Except DropReason (Reference × Reference)) :=
  answerIf d.isSettled d.normalize

end ConversionDecl

/-- What the declarations of some units come to. -/
structure Registry where
  graph : Graph
  dropped : List Dropped

namespace Registry

/-- The pairs accepted and the declarations dropped so far, in the order of the declarations. -/
structure Tally where
  pairs : List (Reference × Reference) := []
  dropped : List Dropped := []

namespace Tally

/-- The tally with one declaration of a unit, which is looked at only if it is a conversion. -/
def declare (name : String) (path : Path) (tally : Tally) (d : ConversionDecl) : Metered Tally := do
  Metered.tick .buildGraph
  if d.isConversion name then
    match ← d.verdict with
    | .ok pair => return { tally with pairs := tally.pairs ++ [pair] }
    | .error reason =>
      return { tally with dropped := tally.dropped ++ [⟨path, d.source, d.target, reason⟩] }
  else return tally

/-- The tally with the declarations of a unit. -/
def declareUnit (name : String) (tally : Tally) (unit : SourceUnit) : Metered Tally := do
  Metered.tick .buildGraph
  unit.conversions.foldlM (declare name unit.path) tally

end Tally

/-- The graph of the declared conversions and the dropped declarations, sorted. -/
def build (units : List SourceUnit) (name : String) : Metered Registry := do
  let tally ← units.foldlM (Tally.declareUnit name) {}
  unless tally.dropped.all Dropped.hasTexts do throw .incompleteReference
  let graph ← Graph.ofPairs tally.pairs
  return ⟨graph, sortBy Dropped.key tally.dropped⟩

end Registry

end ConversionClosure
