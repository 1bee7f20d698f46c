/-
Settings.

Settings come from a table.  Entries of the wrong kind count as absent, texts are trimmed,
and an entry that has nothing left is absent too.  Only the numbers can go wrong: a text of
digits is refused if they write no integer, or one that is too long.
-/
import ConversionClosure.Emission
import ConversionClosure.Registry
import ConversionClosure.Data.Value

namespace ConversionClosure

/-- What a pass is told. -/
structure Settings where
  traitName : String := ConversionDecl.defaultTrait
  traitPath : String := ({} : EmissionStyle).traitPath
  prelude : List String := ({} : EmissionStyle).prelude
  header : String := ""
  timeoutMs : Int := 120000
  workLimit : Int := 50000000
deriving DecidableEq, Repr

namespace Settings

/-- How a pass with the settings writes conversions. -/
def style (s : Settings) : EmissionStyle :=
  { traitPath := s.traitPath, prelude := s.prelude, header := s.header }

/-- A text without its blanks, unless nothing is left. -/
def trimmed? (text : String) : Option String :=
  let text := Text.trim text
  if text = "" then none else some text

/-- The stretches of a list of characters between commas. -/
def splitCommas (begun : List Char) : List Char → List (List Char)
  | [] => [begun]
  | ',' :: cs => begun :: splitCommas [] cs
  | c :: cs => splitCommas (begun ++ [c]) cs

/-- The names in a list of texts, or in one text with commas between them. -/
def nameList : Value → List String
  | .text s => ((splitCommas [] s.toList).map String.ofList).filterMap trimmed?
  | .list items => items.filterMap fun
    | .text s => trimmed? s
    | _ => none
  | _ => []

/-- A text that is not blank, without the blanks around it. -/
def textOr (default : String) : Option Value → String
  | some (.text s) => (trimmed? s).getD default
  | _ => default

/-- A text that writes digits and nothing else, apart from blanks around them. -/
def isDigits (s : String) : Bool :=
  let s := Text.trim s
  s != "" && s.toList.all Text.isDigit

/-- A positive integer, or the text of one. -/
def positiveOr (default : Int) : Option Value → Except Fault Int
  | some (.int n) => .ok (if 0 < n then n else default)
  | some (.text s) =>
    if isDigits s then
      match Text.integer s with
      | .ok n => .ok (if 0 < n then n else default)
      | .error fault => .error (.ofInteger s fault)
    else .ok default
  | _ => .ok default

/-- The settings that a value gives; a value that is no table gives none. -/
def ofValue : Value → Except Fault Settings
  | .table fields => do
    let entry (key : String) := Value.lookup key fields
    let timeoutMs ← positiveOr ({} : Settings).timeoutMs (entry "timeout_ms")
    let workLimit ← positiveOr ({} : Settings).workLimit (entry "gas_limit")
    return {
      traitName := textOr ({} : Settings).traitName (entry "construct_name")
      traitPath := textOr ({} : Settings).traitPath (entry "trait_path")
      prelude := ((entry "prelude").map nameList).getD ({} : Settings).prelude
      header := match entry "header" with
        | some (.text s) => s
        | _ => ""
      timeoutMs
      workLimit }
  | _ => .ok {}

/-- The entries of one table over those of another; null counts as absent. -/
def merge (entries defaults : List (String × Value)) : List (String × Value) :=
  entries.foldl
    (fun merged (key, value) =>
      match value with
      | .null => merged
      | value => Value.assign key value merged)
    defaults

end Settings

end ConversionClosure
