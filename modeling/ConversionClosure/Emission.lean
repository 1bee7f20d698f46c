/-
Source text of synthesized conversions.

Each conversion becomes one implementation whose body goes through the intermediate type.
Every lifetime of its source is declared after the keyword.  The implementations follow a
header, written as comments, and the lines that every generated file starts with.
-/
import ConversionClosure.Graph.Closure
import ConversionClosure.Reference.Names
import ConversionClosure.Text.Trim

namespace ConversionClosure

/-- How conversions are written. -/
structure EmissionStyle where
  traitPath : String := "::std::convert::From"
  prelude : List String := ["use crate::schema::*;", "use crate::utils::*;"]
  header : String := ""
  indent : String := "    "
deriving DecidableEq, Repr

/-- A conversion as it is written, with the texts of its types. -/
structure WrittenConversion where
  source : String
  target : String
  via : String
  text : String
deriving DecidableEq, Repr

/-- A generated file. -/
structure Emission where
  conversions : List WrittenConversion := []
  prelude : List String := []
  header : String := ""
deriving DecidableEq, Repr

namespace Emission

/-- Lines with line ends between them. -/
def joinLines (lines : List String) : String := "\n".intercalate lines

/-- The declaration of lifetimes after the keyword of an implementation. -/
def generics (lifetimes : List String) : String :=
  if lifetimes.isEmpty then "" else "<" ++ ", ".intercalate lifetimes ++ ">"

/-- The call of the conversion from `source` to `target`, up to its argument. -/
def callText (style : EmissionStyle) (source target : Reference) : String :=
  "<" ++ target.render ++ " as " ++ style.traitPath ++ "<" ++ source.render ++ ">>::from("

/-- The implementation of a conversion from `source` to `target` through `via`. -/
def conversionText (style : EmissionStyle) (s : Synthesized) : String :=
  let trait := style.traitPath
  let source := s.source.render
  let target := s.target.render
  let one := style.indent
  let two := one ++ one
  let three := two ++ one
  joinLines [
    "impl" ++ generics s.source.declaredLifetimes ++ " " ++ trait ++ "<" ++ source ++ "> for " ++
      target ++ " \x7b",
    one ++ "fn from(value: " ++ source ++ ") -> Self \x7b",
    two ++ callText style s.via s.target,
    three ++ callText style s.source s.via ++ "value),",
    two ++ ")",
    one ++ "\x7d",
    "\x7d"]

/-- The written form of a conversion. -/
def write (style : EmissionStyle) (s : Synthesized) : WrittenConversion :=
  ⟨s.source.render, s.target.render, s.via.render, conversionText style s⟩

/-- Every part that the written form of a conversion shows is there. -/
def isWritable (s : Synthesized) : Bool :=
  s.source.hasText && s.target.hasText && s.via.hasText && s.source.settlesLifetimes

/-- The generated file of some conversions, with one tick for each. -/
def plan (style : EmissionStyle) (edges : List Synthesized) : Metered Emission := do
  let conversions ← edges.mapM fun s => do
    Metered.tick .planEmission
    answerIf (isWritable s) (write style s)
  return { conversions, prelude := style.prelude, header := style.header }

/-- The lines of the header, as comments without blanks at their ends. -/
def headerLines (header : String) : List String :=
  (Text.lines header).map fun line => Text.trimEnd ("// " ++ line)

/-- The text of a generated file; it is empty when there is nothing to write. -/
def render (e : Emission) : String :=
  let opening := headerLines e.header ++ e.prelude
  let chunks :=
    (if opening.isEmpty then [] else [joinLines opening]) ++ e.conversions.map (·.text)
  if chunks.isEmpty then "" else joinLines chunks ++ "\n"

end Emission

end ConversionClosure
