/-
Faults.

Everything that can end an operation before its answer.  A broken rule says that a caller
gave something it promised not to give; a time-out says where a pass ran out of work or
time; a unit fault says why a file could not be loaded.
-/
import ConversionClosure.Declaration.Document
import ConversionClosure.File.System
import ConversionClosure.Reference.Reader

namespace ConversionClosure

/-- A rule that a caller has broken, with what shows it. -/
inductive BrokenRule
  | workLimit (limit : String)
  | workTicks (ticks stage : String)
  | timeLimit (milliseconds : String)
  | noDeadline
  | noBudget
  | unknownLanguage (id : String)
  | selfConversion (type : String)
  | unordered (source : String) (previous current : Nat)
  | marked (reason : String) (shown : List (String × String))
deriving DecidableEq, Repr

namespace BrokenRule

/-- The rule in words. -/
def message : BrokenRule → String
  | workLimit _ => "invalid work budget"
  | workTicks _ _ => "invalid work ticks"
  | timeLimit _ => "invalid timeout"
  | noDeadline => "deadline carrier missing"
  | noBudget => "work budget missing"
  | unknownLanguage _ => "unknown language adapter"
  | selfConversion _ => "conversion edge loops back to its source"
  | unordered _ _ _ => "caller-ordered invariant violated"
  | marked reason _ => if reason = "" then "never() marker reached" else reason

/-- What shows that the rule is broken, by name. -/
def shown : BrokenRule → List (String × String)
  | workLimit limit => [("limit", limit)]
  | workTicks ticks stage => [("ticks", ticks), ("stage", stage)]
  | timeLimit milliseconds => [("milliseconds", milliseconds)]
  | noDeadline => []
  | noBudget => []
  | unknownLanguage id => [("language_id", id)]
  | selfConversion type => [("type", type)]
  | unordered source previous current =>
    [("source", source), ("previous_index", toString previous), ("current_index", toString current)]
  | marked _ shown => shown

end BrokenRule

/-- A place where work is charged. -/
inductive Site
  | loadSource
  | loadDocument
  | readEntry
  | collectTypes
  | buildGraph
  | saturate
  | synthesize
  | search
  | planEmission
deriving DecidableEq, Repr

namespace Site

/-- The name of a site in reports. -/
def text : Site → String
  | loadSource => "rust_adapter.py:load_units"
  | loadDocument => "json_adapter.py:load_units"
  | readEntry => "json_adapter.py:parse_source"
  | collectTypes => "catalog.py:collect_defined_types"
  | buildGraph => "conversion_registry.py:build_conversion_graph"
  | saturate => "closure.py:_saturate"
  | synthesize => "closure.py:synthesize"
  | search => "closure.py:_search"
  | planEmission => "emission.py:plan_emission"

end Site

/-- Where a pass ran out of work, or out of time when its work was not `exhausted`. -/
structure Timeout where
  stage : String
  site : Option Site
  spent : Nat
  exhausted : Bool
deriving DecidableEq, Repr

namespace Timeout

/-- The time-out in words. -/
def message (t : Timeout) : String :=
  "Analysis timed out in " ++ t.stage ++ " at " ++ (t.site.map Site.text).getD "" ++ "."

end Timeout

/-- Why a file gives no unit. -/
inductive UnitCause
  | notAFile
  | undecodable (fault : Utf8Fault)
  | lex (fault : LexFault)
  | invalid (faults : List DocumentFault)
deriving DecidableEq, Repr

namespace UnitCause

/-- The stage of loading that failed. -/
def stage : UnitCause → String
  | notAFile | undecodable _ => "read"
  | lex _ => "lex"
  | invalid _ => "validate"

/-- The cause in words; the faults of a document are listed apart. -/
def detail : UnitCause → String
  | notAFile => "not a file"
  | undecodable fault => fault.message
  | lex fault => fault.message
  | invalid _ => ""

end UnitCause

/-- Everything that can end an operation before its answer. -/
inductive Fault
  | broken (rule : BrokenRule)
  | timeout (timeout : Timeout)
  | exhausted (stage : String) (spent limit : Nat)
  | unit (path : Path) (cause : UnitCause)
  | type (fault : TypeFault)
  | notInteger (given : String)
  | tooManyDigits (count : Nat)
  | infinite
  | noLanguage (id : String)
  | incompleteReference
  | undecodable (fault : Utf8Fault)
  | file (path : Path) (cause : FileCause)
deriving DecidableEq, Repr

namespace Fault

/-- The fault of a given text that writes no integer. -/
def ofInteger (given : String) : Text.IntegerFault → Fault
  | .malformed => notInteger given
  | .tooManyDigits count => tooManyDigits count

/-- A unit fault in words. -/
def unitMessage (path : Path) (cause : UnitCause) : String :=
  path.toText ++ ": " ++ cause.stage ++ ": " ++ cause.detail

/-- The fault in words. -/
def message : Fault → String
  | broken rule => rule.message
  | timeout t => t.message
  | exhausted stage spent limit =>
    "work budget exhausted in " ++ stage ++ ": " ++ toString spent ++ "/" ++ toString limit
  | unit path cause => unitMessage path cause
  | type fault => fault.message
  | notInteger given => "invalid literal for int() with base 10: " ++ Text.quotedStart given
  | tooManyDigits count =>
    "Exceeds the limit (" ++ toString Text.maxDigits ++
      " digits) for integer string conversion: value has " ++ toString count ++
      " digits; use sys.set_int_max_str_digits() to increase the limit"
  | infinite => "cannot convert float infinity to integer"
  | noLanguage id => Text.quoted id
  | incompleteReference => "tuple index out of range"
  | undecodable fault => fault.message
  | file path cause =>
    "[Errno " ++ toString cause.number ++ "] " ++ cause.message ++ ": " ++
      Text.quoted path.toText

end Fault

end ConversionClosure
