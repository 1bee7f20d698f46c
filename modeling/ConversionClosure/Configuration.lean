/-
Settings from a configuration file.

A configuration file is a TOML document with the settings in one table.  A file that is not
there, that cannot be read or that is no such document gives no settings; only bytes that are
no text, and integers with too many digits, are a fault.  What a caller asks for goes over what the file says.
-/
import ConversionClosure.Data.Toml
import ConversionClosure.File.System
import ConversionClosure.Settings

namespace ConversionClosure

/-- Settings that a caller asks for, whatever the configuration file says. -/
structure Overrides where
  traitName : Option String := none
  traitPath : Option String := none
  header : Option String := none
  noPrelude : Bool := false
deriving DecidableEq, Repr

namespace Overrides

/-- A text, or null if there is none. -/
def textOrNull (text : Option String) : Value := (text.map Value.text).getD .null

/-- The overrides as entries of a table; what is not asked for is null. -/
def entries (o : Overrides) : List (String × Value) :=
  [("construct_name", textOrNull o.traitName), ("trait_path", textOrNull o.traitPath),
    ("header", textOrNull o.header), ("prelude", if o.noPrelude then .list [] else .null)]

end Overrides

namespace Configuration

/-- The name of a configuration file that is not named otherwise. -/
def fileName : String := "transit.toml"

/-- The key of the table that holds the settings. -/
def tableName : String := "transit"

/-- The path of the configuration file: the one that is named, or else the one in a directory. -/
def path (root : Path) (named : Option Path) : Path := named.getD (root.join (.ofText fileName))

/-- The fields of the document at a path. -/
def document (fs : FileSystem) (p : Path) : Except Fault (List (String × Value)) :=
  match fs.read p with
  | .error _ => .ok []
  | .ok bytes =>
    match Utf8.readText bytes with
    | .error fault => .error (.undecodable fault)
    | .ok text =>
      match Toml.read text with
      | .ok fields => .ok fields
      | .error .malformed => .ok []
      | .error (.tooManyDigits count) => .error (.tooManyDigits count)

/-- The entries of the settings in the document at a path. -/
def entries (fs : FileSystem) (p : Path) : Except Fault (List (String × Value)) := do
  match (Value.table (← document fs p)).field? tableName with
  | some (.table fields) => return fields
  | _ => return []

/-- The settings of a configuration file and of what goes over it. -/
def resolve (fs : FileSystem) (p : Path) (overrides : Overrides) : Except Fault Settings := do
  Settings.ofValue (.table (Settings.merge overrides.entries (← entries fs p)))

end Configuration

end ConversionClosure
