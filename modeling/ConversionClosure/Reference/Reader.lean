/-
Reading references from tokens.

A reader takes tokens from the front of a list.  When it fails, the tokens it has not taken
are still there, since a scanner goes on behind a type that cannot be read.

Recursion is bounded by a fuel of three units for every token and three more: between two
readers that each take a token there are at most two that take none.
-/
import ConversionClosure.Reference.Render
import ConversionClosure.Token.Run

namespace ConversionClosure

/-- Why a type or the header of an item cannot be read. -/
inductive TypeFault
  | endOfTokens
  | noTypeAtEnd
  | noType
  | unexpected (wanted found : String) (line : Nat)
  | notAType (found : String) (line : Nat)
  | malformedPointer (line : Nat)
  | noArrayLength
  | notASegment (found : String) (line : Nat)
  | malformedMacro (line : Nat)
  | openArguments
  | betweenArguments (found : String) (line : Nat)
  | openAngle
  | afterType (found : String)
  | unmatchedBracket
  | outOfFuel
deriving DecidableEq, Repr

namespace TypeFault

/-- The place of a fault in words. -/
def onLine (line : Nat) : String := " (line " ++ toString line ++ ")"

/-- The fault in words. -/
def message : TypeFault → String
  | endOfTokens => "unexpected end of input"
  | noTypeAtEnd => "expected a type, found end of input"
  | noType => "expected a type"
  | unexpected wanted found line =>
    "expected " ++ Text.quoted wanted ++ ", found " ++ Text.quoted found ++ onLine line
  | notAType found line => "unexpected " ++ Text.quoted found ++ " in type" ++ onLine line
  | malformedPointer line => "malformed raw pointer" ++ onLine line
  | noArrayLength => "array type without length"
  | notASegment found line =>
    "expected path segment, found " ++ Text.quoted found ++ onLine line
  | malformedMacro line => "malformed type macro" ++ onLine line
  | openArguments => "unterminated generic argument list"
  | betweenArguments found line =>
    "unexpected " ++ Text.quoted found ++ " in generic arguments" ++ onLine line
  | openAngle => "unbalanced '<'"
  | afterType found => "unexpected " ++ Text.quoted found ++ " after type"
  | unmatchedBracket => "unmatched bracket"
  | outOfFuel => "out of fuel"

end TypeFault

/-- Takes tokens from the front of a list, or fails and leaves the tokens it has not taken. -/
abbrev TokenReader := EStateM TypeFault (List Token)

namespace TokenReader

/-- The next token, which stays. -/
def peek? : TokenReader (Option Token) := return (← get).head?

/-- No token is left. -/
def atEnd : TokenReader Bool := return (← get).isEmpty

/-- Passes over one token. -/
def skip : TokenReader Unit := modify List.tail

/-- Takes one token. -/
def next : TokenReader Token := do
  match ← get with
  | [] => throw .endOfTokens
  | t :: ts => set ts; return t

/-- The token `offset` places on is the punctuation `text`. -/
def atPunct (text : String) (offset : Nat) : TokenReader Bool :=
  return (← get)[offset]?.any (·.isPunct text)

/-- The next token is the name `text`. -/
def atIdent (text : String) : TokenReader Bool := return (← get).head?.any (·.isIdent text)

/-- Takes the punctuation `text`, which has to come next. -/
def expect (text : String) : TokenReader Unit := do
  let t ← next
  unless t.isPunct text do throw (.unexpected text t.text t.line)

/-- Takes the group that the next token opens. -/
def group : TokenReader (List Token) := do
  match Run.group? (← get) with
  | some (run, rest) => set rest; return run
  | none => throw .unmatchedBracket

/-- Takes a run between angle brackets; without an end it takes everything and fails. -/
def angles : TokenReader (List Token) := do
  match Run.angles? 0 0 (← get) with
  | some (run, rest) => set rest; return run
  | none => set ([] : List Token); throw .openAngle

/-- Takes the tokens before the mark that ends a type; there has to be one at least. -/
def untilEnd : TokenReader (List Token) := do
  let (run, rest) := Run.untilEnd 0 0 (← get)
  if run.isEmpty then throw .noType
  set rest
  return run

/-- Runs a reader on the tokens inside a group; the tokens after the group stay as they are. -/
def within {α : Type} (inner : List Token) (reader : TokenReader α) : TokenReader α := fun rest =>
  match reader inner with
  | .ok a _ => .ok a rest
  | .error e _ => .error e rest

end TokenReader

namespace Reference

open TokenReader

/-- Names that start a type which is kept as its text. -/
def verbatimStarts : List String := ["dyn", "impl", "fn", "unsafe", "extern", "for"]

/-- The lifetime that may follow an ampersand. -/
def readLifetime : TokenReader String := do
  match ← peek? with
  | some t => if t.kind == .lifetime then skip; return t.text else return ""
  | none => return ""

/-- The path of segments as text. -/
def joinSegments (segments : List String) : String := "::".intercalate segments

/-- A segment with its arguments, as text. -/
def segmentText (segment : String) (args : List Reference) : String :=
  if args.isEmpty then segment
  else segment ++ "<" ++ commaSeparated (args.map render) ++ ">"

mutual

/-- Reads a type. -/
def readType : Nat → TokenReader Reference
  | 0 => throw .outOfFuel
  | fuel + 1 => do
    match ← peek? with
    | none => throw .noTypeAtEnd
    | some t =>
      if t.isPunct "&" then
        skip
        let lifetime ← readLifetime
        let exclusive ← atIdent "mut"
        if exclusive then skip
        let inner ← readType fuel
        return { modifier := if exclusive then .exclusive else .shared, args := [inner], lifetime }
      else if t.isPunct "*" then
        skip
        let qualifier ← next
        if qualifier.isIdent "const" then
          return { modifier := .constPointer, args := [← readType fuel] }
        else if qualifier.isIdent "mut" then
          return { modifier := .mutPointer, args := [← readType fuel] }
        else throw (.malformedPointer qualifier.line)
      else if t.isPunct "(" then
        let run ← group
        let (elements, trailing) ← within (Run.inside run) (readElements fuel)
        match elements, trailing with
        | [element], false => return element
        | _, _ => return { modifier := .tuple, args := elements }
      else if t.isPunct "[" then
        let run ← group
        within (Run.inside run) do
          let element ← readType fuel
          if ← atEnd then return { modifier := .slice, args := [element] }
          expect ";"
          let length := Token.join (← get)
          if length = "" then throw .noArrayLength
          return { modifier := .array, args := [element], length }
      else if t.isPunct "<" then return ofText (Token.join (← untilEnd))
      else if t.isPunct "!" || t.isIdent "_" then
        skip
        return ofText t.text
      else if t.kind == .ident && verbatimStarts.contains t.text then
        return ofText (Token.join (← untilEnd))
      else if t.isPunct "::" then
        skip
        readPath fuel []
      else if t.kind == .ident then readPath fuel []
      else throw (.notAType t.text t.line)

/-- Reads the elements of a tuple up to the end, and tells whether the last one has a comma. -/
def readElements : Nat → TokenReader (List Reference × Bool)
  | 0 => throw .outOfFuel
  | fuel + 1 => do
    if ← atEnd then return ([], true)
    let element ← readType fuel
    if ← atEnd then return ([element], false)
    expect ","
    let (elements, trailing) ← readElements fuel
    return (element :: elements, trailing)

/-- Reads a path that goes on after `segments`. -/
def readPath : Nat → List String → TokenReader Reference
  | 0, _ => throw .outOfFuel
  | fuel + 1, segments => do
    let t ← next
    unless t.kind == .ident do throw (.notASegment t.text t.line)
    if ← atPunct "!" 0 then
      skip
      unless (← peek?).any (·.isOpener) do throw (.malformedMacro t.line)
      let body ← group
      return ofText (joinSegments (segments ++ [t.text]) ++ "!" ++ Token.join body)
    else if ← atPunct "(" 0 then
      let body ← group
      let text := t.text ++ Token.join body
      if ← atPunct "->" 0 then
        skip
        let result ← readType fuel
        return ofText (joinSegments (segments ++ [text ++ " -> " ++ render result]))
      else return ofText (joinSegments (segments ++ [text]))
    else
      if (← atPunct "::" 0) && (← atPunct "<" 1) then skip
      let args ← if ← atPunct "<" 0 then skip; readArguments fuel else pure []
      if (← atPunct "::" 0) && (← get)[1]?.any (·.kind == .ident) then
        skip
        readPath fuel (segments ++ [segmentText t.text args])
      else return { segments := segments ++ [t.text], args }

/-- Reads type arguments after their opening angle bracket. -/
def readArguments : Nat → TokenReader (List Reference)
  | 0 => throw .outOfFuel
  | fuel + 1 => do
    if ← atPunct ">" 0 then
      skip
      return []
    let argument ← match ← peek? with
      | none => throw .openArguments
      | some t =>
        if t.kind == .lifetime || t.kind == .literal then
          skip
          pure (ofText t.text)
        else if t.isPunct (Bracket.opener .curly) then pure (ofText (Token.join (← group)))
        else if t.kind == .ident && ((← atPunct "=" 1) || (← atPunct ":" 1)) then
          let name ← next
          let separator ← next
          let bound ← untilEnd
          pure (ofText (Token.join (name :: separator :: bound)))
        else readType fuel
    if ← atPunct "," 0 then skip
    else unless ← atPunct ">" 0 do
      match ← peek? with
      | some found => throw (.betweenArguments found.text found.line)
      | none => throw .openArguments
    return argument :: (← readArguments fuel)

end

/-- Reads a type from tokens of any number. -/
def reader : TokenReader Reference := fun ts => readType (3 * (ts.length + 1)) ts

/-- Why a text is no type. -/
inductive ReadFault
  | lex (fault : LexFault)
  | type (fault : TypeFault)
deriving DecidableEq, Repr

namespace ReadFault

/-- The fault in words. -/
def message : ReadFault → String
  | lex fault => fault.message
  | type fault => fault.message

end ReadFault

/-- The type that a list of tokens writes, all of them. -/
def ofTokens (ts : List Token) : Except TypeFault Reference :=
  match reader ts with
  | .error fault _ => .error fault
  | .ok r [] => .ok r
  | .ok _ (t :: _) => .error (.afterType t.text)

/-- The type that a text writes. -/
def parse (text : String) : Except ReadFault Reference :=
  match tokenize text with
  | .error fault => .error (.lex fault)
  | .ok ts =>
    match ofTokens ts with
    | .error fault => .error (.type fault)
    | .ok r => .ok r

end Reference

end ConversionClosure
