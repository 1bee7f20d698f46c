/-
Input languages.

A language is known by its name and by the suffixes of its files.  Two are built in: source
text, and declaration documents.  A path is read in the language asked for, or else in the
one that its suffix belongs to, or else in a default language.  Names and suffixes are looked
up without regard to case.
-/
import ConversionClosure.Declaration.Scanner
import ConversionClosure.Work.Metered

namespace ConversionClosure

/-- How files of a built-in language are read. -/
inductive Format
  | source
  | document
deriving DecidableEq, Repr

/-- A language, which has no format if it is known by name only. -/
structure Language where
  name : String
  suffixes : List String
  format : Option Format := none
deriving DecidableEq, Repr

namespace Language

/-- Source text. -/
def source : Language := ⟨"rust", [".rs"], some .source⟩

/-- Declaration documents. -/
def document : Language := ⟨"json", [".json"], some .document⟩

end Language

/-- The languages that are registered, by name and by suffix, the latest first. -/
structure Languages where
  byName : List (String × Language) := []
  bySuffix : List (String × Language) := []
deriving DecidableEq, Repr

namespace Languages

/-- The languages with one more, which takes the place of earlier ones of its name and suffixes.
The name is kept as it is; suffixes are made small. -/
def register (ls : Languages) (l : Language) : Languages where
  byName := (l.name, l) :: ls.byName
  bySuffix := (l.suffixes.map fun suffix => (Text.lower suffix, l)).reverse ++ ls.bySuffix

/-- The languages at the start. -/
def builtIn : Languages := (register {} .source).register .document

/-- The language of a name. -/
def named? (ls : Languages) (name : String) : Option Language := ls.byName.lookup (Text.lower name)

/-- The language of a suffix. -/
def suffixed? (ls : Languages) (suffix : String) : Option Language :=
  ls.bySuffix.lookup (Text.lower suffix)

/-- The language in which a path is read. -/
def resolve (ls : Languages) (path : Path) (name : Option String) (default : String) :
    Except Fault Language :=
  match name with
  | some name =>
    match ls.named? name with
    | some l => .ok l
    | none => .error (.broken (.unknownLanguage name))
  | none =>
    match ls.suffixed? path.suffix with
    | some l => .ok l
    | none =>
      match ls.named? default with
      | some l => .ok l
      | none => .error (.noLanguage (Text.lower default))

/-- The language of a path without any other wish. -/
def defaultName : String := Language.source.name

end Languages

/-! ### Units -/

namespace Format

/-- The unit of a source text. -/
def parseSource (path : Path) (text : String) : Except Fault SourceUnit :=
  match tokenize text with
  | .error fault => .error (.unit path (.lex fault))
  | .ok ts =>
    match scan ts with
    | .error fault => .error (.type fault)
    | .ok found => .ok (.ofFindings path found)

/-- A trait path with the source as its argument, unless it has arguments or is no path. -/
def withSource (trait : Reference) (source : String) : Except Reference.ReadFault Reference :=
  if trait.isPath && trait.args.isEmpty then do
    return { segments := trait.segments, args := [← Reference.parse source] }
  else .ok trait

/-- The conversion that an entry of a document declares. -/
def parseEntry (entry : Entry) : Except Reference.ReadFault ConversionDecl := do
  let trait ← withSource (← Reference.parse entry.trait) entry.source
  let source ← Reference.parse entry.source
  let target ← Reference.parse entry.target
  return { trait, source, target, params := entry.params }

/-- The note on an entry that declares no conversion. -/
def entryNote (index : Nat) (fault : Reference.ReadFault) : String :=
  "conversions[" ++ toString index ++ "]: " ++ fault.message

/-- The conversions and notes of the entries from place `index` on, with one tick for each. -/
def parseEntries (index : Nat) : List Entry → Metered (List ConversionDecl × List String)
  | [] => return ([], [])
  | entry :: rest => do
    Metered.tick .readEntry
    let (decls, notes) ← parseEntries (index + 1) rest
    match parseEntry entry with
    | .ok decl => return (decl :: decls, notes)
    | .error fault => return (decls, entryNote index fault :: notes)

/-- The unit of a declaration document, which may name its own path. -/
def parseDocument (path : Path) (text : String) : Metered SourceUnit := do
  match Document.read text with
  | .error faults => throw (.unit path (.invalid faults))
  | .ok content =>
    let (conversions, skipped) ← parseEntries 0 content.entries
    let ownPath := content.path.filter (· != "")
    return {
      path := (ownPath.map Path.ofText).getD path
      types := content.types
      conversions
      skipped }

/-- The unit of a text. -/
def parse (format : Format) (path : Path) (text : String) : Metered SourceUnit :=
  match format with
  | source => parseSource path text
  | document => parseDocument path text

/-- The place where a loaded file is charged. -/
def loadSite : Format → Site
  | source => .loadSource
  | document => .loadDocument

end Format

namespace SourceUnit

/-- The unit of a text in a language. -/
def parse (l : Language) (path : Path) (text : String) : Metered SourceUnit :=
  match l.format with
  | some format => format.parse path text
  | none => throw (.broken (.unknownLanguage l.name))

/-- The unit of the file at a path in a format, with one tick before the file is read. -/
def loadAs (format : Format) (fs : FileSystem) (path : Path) : Metered SourceUnit := do
  Metered.tick format.loadSite
  match fs.read path with
  | .error _ => throw (.unit path .notAFile)
  | .ok bytes =>
    match Utf8.readText bytes with
    | .error fault => throw (.unit path (.undecodable fault))
    | .ok text => format.parse path text

/-- The unit of the file at a path. -/
def load (ls : Languages) (fs : FileSystem) (name : Option String) (path : Path) :
    Metered SourceUnit := do
  unless fs.isFile path do throw (.unit path .notAFile)
  let l ← ls.resolve path name Languages.defaultName
  match l.format with
  | some format => loadAs format fs path
  | none => throw (.broken (.unknownLanguage l.name))

/-- The units of the files at some paths; the first that cannot be loaded ends everything. -/
def loadAll (ls : Languages) (fs : FileSystem) (name : Option String) (paths : List Path) :
    Metered (List SourceUnit) :=
  paths.mapM (load ls fs name)

end SourceUnit

end ConversionClosure
