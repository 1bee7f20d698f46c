/-
Items of a source file.

Only items at the top level are looked at.  Declared structures and enumerations are
findings, and so are trait implementations whose trait has an argument; everything else is
passed over as a balanced run of tokens.  A header of an implementation that cannot be read
is noted, and scanning goes on behind the item.
-/
import ConversionClosure.Declaration.Basic
import ConversionClosure.Reference.Reader

namespace ConversionClosure

/-- What an item that could not be read looked like. -/
inductive Note
  | nameless (line : Nat) (keyword : String)
  | badHeader (line : Nat) (fault : TypeFault)
deriving DecidableEq, Repr

namespace Note

/-- The note in words. -/
def message : Note → String
  | nameless line keyword => "line " ++ toString line ++ ": " ++ keyword ++ " without a name"
  | badHeader line fault => "line " ++ toString line ++ ": impl header: " ++ fault.message

end Note

/-- What an item declares, or a note. -/
inductive Finding
  | type (decl : TypeDecl)
  | conversion (decl : ConversionDecl)
  | skipped (note : Note)
deriving DecidableEq, Repr

namespace Finding

/-- The declared type, if the finding is one. -/
def type? : Finding → Option TypeDecl
  | type decl => some decl
  | _ => none

/-- The declared conversion, if the finding is one. -/
def conversion? : Finding → Option ConversionDecl
  | conversion decl => some decl
  | _ => none

/-- The note, if the finding is one. -/
def note? : Finding → Option Note
  | skipped note => some note
  | _ => none

end Finding

namespace Scanner

open TokenReader

/-- Words that may stand before the keyword of an item. -/
def itemWords : List String := ["pub", "unsafe", "default", "async", "extern", "auto"]

/-- The names of the parameters in a run between angle brackets, where `depth` angle brackets
are open and `expecting` tells whether a parameter begins. -/
def paramNames (depth : Int) (expecting : Bool) : List Token → List String
  | [] => []
  | t :: ts =>
    if t.isPunct "<" then paramNames (depth + 1) (depth == 0) ts
    else if t.isPunct ">" then paramNames (depth - 1) expecting ts
    else if t.isPunct "," && depth == 1 then paramNames depth true ts
    else if expecting && depth == 1 then
      match t.isIdent "const", ts with
      | true, name :: ts => name.text :: paramNames depth false ts
      | _, ts =>
        if t.kind == .ident || t.kind == .lifetime then t.text :: paramNames depth false ts
        else paramNames depth false ts
    else paramNames depth expecting ts

/-- The names of the parameters in a run between angle brackets. -/
def params (run : List Token) : List String := paramNames 0 true run

/-- Passes over attributes; `fuel` bounds their number. -/
def skipAttributes : Nat → TokenReader Unit
  | 0 => throw .outOfFuel
  | fuel + 1 => do
    if ← atPunct "#" 0 then
      let offset := if ← atPunct "!" 1 then 2 else 1
      if ← atPunct "[" offset then
        modify (List.drop offset)
        let _ ← group
        skipAttributes fuel

/-- Passes over the words before the keyword of an item; `fuel` bounds their number. -/
def skipWords : Nat → TokenReader Unit
  | 0 => throw .outOfFuel
  | fuel + 1 => do
    match ← peek? with
    | none => return
    | some t =>
      if t.kind == .ident && itemWords.contains t.text then
        skip
        if t.text == "pub" && (← atPunct "(" 0) then
          let _ ← group
        else if t.text == "extern" && (← peek?).any (·.kind == .literal) then skip
        skipWords fuel

/-- Passes over the rest of an item. -/
def skipItem : TokenReader Unit := modify (Run.afterItem 0 false)

/-- A declared type after its keyword. -/
def typeItem (keyword : String) (line : Nat) : TokenReader Finding := do
  match ← peek? with
  | some name =>
    if name.kind == .ident then
      skip
      let arity ← if ← atPunct "<" 0 then pure (params (← angles)).length else pure 0
      skipItem
      return .type ⟨name.text, keyword, arity⟩
    else
      skipItem
      return .skipped (.nameless line keyword)
  | none => return .skipped (.nameless line keyword)

/-- The header of an implementation: its parameters, its trait and the type it is for.  An
implementation of no trait, or a negative one, has none. -/
def implHeader : TokenReader (Option (List String × Reference × Reference)) := do
  let names ← if ← atPunct "<" 0 then pure (params (← angles)) else pure []
  if ← atIdent "const" then skip
  if ← atPunct "!" 0 then return none
  let trait ← Reference.reader
  unless ← atIdent "for" do return none
  skip
  let target ← Reference.reader
  return some (names, trait, target)

/-- The conversion that the header of an implementation declares: its trait is a path, and the
first argument of the trait is the source. -/
def conversion? (names : List String) (trait target : Reference) : Option ConversionDecl :=
  if trait.isPath then
    trait.args.head?.map fun source => { trait, source, target, params := names }
  else none

/-- An implementation after its keyword.  The rest of the item is passed over also when its
header cannot be read. -/
def implItem (line : Nat) : TokenReader (Option Finding) := fun ts =>
  match implHeader ts with
  | .ok none rest => .ok none (Run.afterItem 0 false rest)
  | .ok (some (names, trait, target)) rest =>
    .ok ((conversion? names trait target).map .conversion) (Run.afterItem 0 false rest)
  | .error .unmatchedBracket rest => .error .unmatchedBracket rest
  | .error .outOfFuel rest => .error .outOfFuel rest
  | .error fault rest => .ok (some (.skipped (.badHeader line fault))) (Run.afterItem 0 false rest)

/-- One item behind its attributes and words. -/
def item : TokenReader (Option Finding) := do
  match ← peek? with
  | none => return none
  | some t =>
    if t.isIdent "struct" || t.isIdent "enum" then
      skip
      return some (← typeItem t.text t.line)
    else if t.isIdent "impl" then
      skip
      implItem t.line
    else
      skipItem
      return none

/-- The findings in all tokens; `fuel` bounds the number of items. -/
def items : Nat → TokenReader (List Finding)
  | 0 => throw .outOfFuel
  | fuel + 1 => do
    if ← atEnd then return []
    let bound := (← get).length + 1
    skipAttributes bound
    skipWords bound
    let found ← item
    return found.toList ++ (← items fuel)

end Scanner

/-- The findings in the tokens of a file, in the order of the items. -/
def scan (ts : List Token) : Except TypeFault (List Finding) :=
  match Scanner.items (ts.length + 1) ts with
  | .ok found _ => .ok found
  | .error fault _ => .error fault

/-- The unit of a file with these findings. -/
def SourceUnit.ofFindings (path : Path) (found : List Finding) : SourceUnit where
  path
  types := found.filterMap Finding.type?
  conversions := found.filterMap Finding.conversion?
  skipped := (found.filterMap Finding.note?).map Note.message

end ConversionClosure
