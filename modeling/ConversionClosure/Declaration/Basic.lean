/-
Declarations.

A source unit holds what one file declares: types by name, and conversions as the trait
implementation that declares them reads.  What was recognized as an item and could not be
read is noted in words.
-/
import ConversionClosure.File.Path
import ConversionClosure.Reference.Basic

namespace ConversionClosure

/-- A declared type: its name, the keyword that declares it and the number of its parameters. -/
structure TypeDecl where
  name : String
  kind : String := "struct"
  arity : Int := 0
deriving DecidableEq, Repr

/-- A declared conversion: `trait` for `target`, with `source` the first argument of the trait.
The parameters are those of the implementation. -/
structure ConversionDecl where
  trait : Reference
  source : Reference
  target : Reference
  params : List String := []
deriving DecidableEq, Repr

/-- What one file declares. -/
structure SourceUnit where
  path : Path
  types : List TypeDecl := []
  conversions : List ConversionDecl := []
  skipped : List String := []
deriving DecidableEq, Repr

end ConversionClosure
