/-
TOML.

A document is a list of statements, each on a line of its own: a header in brackets, which
opens a table for the statements after it, or a pair of a dotted key and a value.  A document
with any fault has no value at all, and its first fault is the one that counts.
-/
import ConversionClosure.Data.Toml.Scalar
import ConversionClosure.Data.Toml.Tree

namespace ConversionClosure.Toml

/-! ### Keys -/

/-- A character of a bare key. -/
def isKeyChar (c : Char) : Bool := c.isAlphanum || c == '-' || c == '_'

/-- A bare or quoted key. -/
def key? (cs : List Char) : Option (String × List Char) :=
  let bare := cs.takeWhile isKeyChar
  if bare.isEmpty then (line? cs).map fun (text, rest) => (String.ofList text, rest)
  else some (String.ofList bare, cs.dropWhile isKeyChar)

/-- Keys with dots between them and the text after them; `fuel` bounds the number of keys. -/
def path? : Nat → List Char → Option (List String × List Char)
  | 0, _ => none
  | fuel + 1, cs => do
    let (key, cs) ← key? cs
    match skipSpace cs with
    | '.' :: cs => (path? fuel (skipSpace cs)).map fun (path, rest) => (key :: path, rest)
    | cs => some ([key], cs)

/-- Keys with dots between them and the text after them. -/
def keyPath? (cs : List Char) : Option (List String × List Char) := path? (cs.length + 1) cs

/-! ### Values -/

/-- The text after blanks, line breaks and comments, where a comment may have begun. -/
def skipGaps (inComment : Bool) : List Char → Option (List Char)
  | [] => some []
  | '\n' :: cs => skipGaps false cs
  | c :: cs =>
    if inComment then if isControl c then none else skipGaps true cs
    else if isSpace c then skipGaps false cs
    else if c = '#' then skipGaps true cs
    else some (c :: cs)

mutual

/-- A value; `fuel` bounds the number of values and separators in it. -/
def value : Nat → List Char → Except ReadFault (Value × List Char)
  | 0, _ => .error .malformed
  | fuel + 1, '[' :: cs => do
    let (items, rest) ← items fuel cs
    return (.list items, rest)
  | fuel + 1, '\x7b' :: cs =>
    match skipSpace cs with
    | '\x7d' :: cs => .ok (.table [], cs)
    | cs => do
      let (fields, rest) ← inlineTable fuel [] cs
      return (.table (fieldValues fields), rest)
  | _, cs => scalarValue cs

/-- The rest of a list. -/
def items : Nat → List Char → Except ReadFault (List Value × List Char)
  | 0, _ => .error .malformed
  | fuel + 1, cs => do
    match ← orMalformed (skipGaps false cs) with
    | ']' :: cs => return ([], cs)
    | cs => do
      let (item, cs) ← value fuel cs
      match ← orMalformed (skipGaps false cs) with
      | ',' :: cs => do
        let (rest, cs) ← items fuel cs
        return (item :: rest, cs)
      | ']' :: cs => return ([item], cs)
      | _ => throw .malformed

/-- The rest of a table within a line that has at least one more pair, after some fields. -/
def inlineTable : Nat → Fields → List Char → Except ReadFault (Fields × List Char)
  | 0, _, _ => .error .malformed
  | fuel + 1, fields, cs => do
    let (path, cs) ← orMalformed (keyPath? cs)
    let (v, cs) ← value fuel (skipSpace (← orMalformed (expect? '=' cs)))
    let fields ← orMalformed (fields.define 0 v path)
    match skipSpace cs with
    | ',' :: cs => inlineTable fuel fields (skipSpace cs)
    | '\x7d' :: cs => return (fields, cs)
    | _ => throw .malformed

end

/-! ### Statements -/

/-- What has been read of a document: its tree, the path of the last header, and the number of
headers. -/
structure Draft where
  fields : Fields := []
  header : List String := []
  part : Nat := 0

/-- The header of a table or, between double brackets, of one more table of a list. -/
def header? (d : Draft) : List Char → Option (Draft × List Char)
  | '[' :: '[' :: cs => do
    let (path, cs) ← keyPath? (skipSpace cs)
    let cs ← expect? ']' (← expect? ']' cs)
    let fields ← d.fields.changeLast Fields.appendTable path
    return (⟨fields, path, d.part + 1⟩, cs)
  | '[' :: cs => do
    let (path, cs) ← keyPath? (skipSpace cs)
    let cs ← expect? ']' cs
    let fields ← d.fields.changeLast Fields.openTable path
    return (⟨fields, path, d.part + 1⟩, cs)
  | _ => none

/-- A key and its value, which is read before it is known whether the key may be used. -/
def pair (d : Draft) (cs : List Char) : Except ReadFault (Draft × List Char) := do
  let (path, cs) ← orMalformed (keyPath? cs)
  let cs := skipSpace (← orMalformed (expect? '=' cs))
  let (v, cs) ← value (2 * cs.length + 2) cs
  let fields ← orMalformed (d.fields.change (Fields.define d.part v path) d.header)
  return ({ d with fields }, cs)

/-- One statement. -/
def statement (d : Draft) : List Char → Except ReadFault (Draft × List Char)
  | '[' :: cs => orMalformed (header? d ('[' :: cs))
  | cs => pair d cs

/-- The text after the rest of a line, which holds nothing but blanks and a comment. -/
def endLine? (inComment : Bool) : List Char → Option (List Char)
  | [] => some []
  | '\n' :: cs => some cs
  | c :: cs =>
    if inComment then if isControl c then none else endLine? true cs
    else if isSpace c then endLine? false cs
    else if c = '#' then endLine? true cs
    else none

/-- The document after all its lines; `fuel` bounds their number. -/
def lines : Nat → Draft → List Char → Except ReadFault Draft
  | 0, _, _ => .error .malformed
  | fuel + 1, d, cs =>
    match skipSpace cs with
    | [] => .ok d
    | c :: cs =>
      if c = '\n' ∨ c = '#' then do lines fuel d (← orMalformed (endLine? false (c :: cs)))
      else do
        let (d, cs) ← statement d (c :: cs)
        lines fuel d (← orMalformed (endLine? false cs))

/-- The fields of the table that a document writes. -/
def read (text : String) : Except ReadFault (List (String × Value)) := do
  let cs := text.toList
  return fieldValues (← lines (cs.length + 1) {} cs).fields

end ConversionClosure.Toml
