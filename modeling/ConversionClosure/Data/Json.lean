/-
JSON.

Reading is strict: one value, no text after it, no bare control character in a string, no
half of a surrogate pair on its own.  Beyond the standard, the three words for numbers that
are not finite are read.  Writing is in two forms: the compact one, and the form of reports,
which is indented by two, sorted by key and ASCII only.
-/
import ConversionClosure.Data.Value
import ConversionClosure.Text.Numeral

namespace ConversionClosure.Json

/-! ### Reading -/

/-- White space between the parts of a document. -/
def isSpace (c : Char) : Bool := c == ' ' || c == '\t' || c == '\n' || c == '\r'

/-- The text after the white space at its start. -/
def skipSpace (cs : List Char) : List Char := cs.dropWhile isSpace

/-- The character of a code unit and, for the first half of a surrogate pair, of the half after it. -/
def unescape? (unit : Nat) : List Char → Option (Char × List Char)
  | '\\' :: 'u' :: a :: b :: c :: d :: rest =>
    if unit < 0xd800 ∨ 0xdfff < unit then
      some (Char.ofNat unit, '\\' :: 'u' :: a :: b :: c :: d :: rest)
    else
      match Text.hexValues? [a, b, c, d] with
      | some low =>
        if unit < 0xdc00 ∧ 0xdc00 ≤ low ∧ low ≤ 0xdfff then
          some (Char.ofNat (0x10000 + (unit - 0xd800) * 0x400 + (low - 0xdc00)), rest)
        else none
      | none => none
  | rest => if unit < 0xd800 ∨ 0xdfff < unit then some (Char.ofNat unit, rest) else none

/-- The character that a letter after a backslash stands for. -/
def escape? : Char → Option Char
  | '"' => some '"'
  | '\\' => some '\\'
  | '/' => some '/'
  | 'b' => some '\x08'
  | 'f' => some '\x0c'
  | 'n' => some '\n'
  | 'r' => some '\r'
  | 't' => some '\t'
  | _ => none

/-- The rest of a string after its opening quote; `fuel` bounds the number of characters. -/
def string? : Nat → List Char → Option (List Char × List Char)
  | 0, _ => none
  | _, [] => none
  | _, '"' :: rest => some ([], rest)
  | fuel + 1, '\\' :: 'u' :: a :: b :: c :: d :: cs => do
    let unit ← Text.hexValues? [a, b, c, d]
    let (char, cs) ← unescape? unit cs
    let (text, rest) ← string? fuel cs
    return (char :: text, rest)
  | fuel + 1, '\\' :: c :: cs => do
    let char ← escape? c
    let (text, rest) ← string? fuel cs
    return (char :: text, rest)
  | fuel + 1, c :: cs =>
    if c.toNat < 0x20 then none
    else (string? fuel cs).map fun (text, rest) => (c :: text, rest)

/-- The exponent after an `e`, if there is one. -/
def exponent? : List Char → Option (Option Int × List Char)
  | e :: cs =>
    if e = 'e' ∨ e = 'E' then
      let negative := cs.head? == some '-'
      let cs := if negative || cs.head? == some '+' then cs.tail else cs
      let digits := cs.takeWhile Char.isDigit
      if digits.isEmpty then none
      else
        some (some (Text.withSign negative (Text.natOfDigits digits)), cs.dropWhile Char.isDigit)
    else some (none, e :: cs)
  | [] => some (none, [])

/-- The digits after a point, if there is one. -/
def fraction? : List Char → Option (Option (List Char) × List Char)
  | '.' :: cs =>
    let digits := cs.takeWhile Char.isDigit
    if digits.isEmpty then none else some (some digits, cs.dropWhile Char.isDigit)
  | cs => some (none, cs)

/-- A number without its sign: no zero before another digit, digits on both sides of a point.
The part before the point has a greatest length, with a minus sign counted as a digit. -/
def number? (negative : Bool) (cs : List Char) : Option (Value × List Char) := do
  let digits := cs.takeWhile Char.isDigit
  if digits.isEmpty || (digits.head? == some '0' && digits.length != 1) then none
  if Text.maxDigits < digits.length + negative.toNat then none
  let (fraction, cs) ← fraction? (cs.dropWhile Char.isDigit)
  let (exponent, cs) ← exponent? cs
  match fraction, exponent with
  | none, none =>
    return (.int (Text.withSign negative (Text.natOfDigits digits)), cs)
  | _, _ =>
    let fraction := fraction.getD []
    return (.decimal ⟨negative, Text.natOfDigits (digits ++ fraction), exponent.getD 0 - fraction.length⟩,
      cs)

/-- The words that are values. -/
def words : List (String × Value) :=
  [("null", .null), ("true", .bool true), ("false", .bool false), ("NaN", .other "nan"),
    ("Infinity", .other "inf"), ("-Infinity", .other "-inf")]

/-- The word at the start of a text. -/
def word? (cs : List Char) : Option (Value × List Char) :=
  words.findSome? fun (word, value) =>
    if word.toList.isPrefixOf cs then some (value, cs.drop word.length) else none

/-- A value that is neither a list nor a table. -/
def scalar? (cs : List Char) : Option (Value × List Char) :=
  match cs with
  | '"' :: cs => (string? (cs.length + 1) cs).map fun (text, rest) => (.text (String.ofList text), rest)
  | _ =>
    match word? cs with
    | some r => some r
    | none => if cs.head? == some '-' then number? true cs.tail else number? false cs

/-- A key and the colon after it. -/
def key? (cs : List Char) : Option (String × List Char) :=
  match skipSpace cs with
  | '"' :: cs => do
    let (text, cs) ← string? (cs.length + 1) cs
    match skipSpace cs with
    | ':' :: cs => some (String.ofList text, cs)
    | _ => none
  | _ => none

mutual

/-- The value at the start of a text, nested at most `depth` levels; `fuel` bounds the number of
values and separators. -/
def value? : Nat → Nat → List Char → Option (Value × List Char)
  | 0, _, _ => none
  | fuel + 1, depth, cs =>
    match skipSpace cs with
    | '[' :: cs =>
      match skipSpace cs with
      | ']' :: cs => some (.list [], cs)
      | cs =>
        if depth = 0 then none
        else (items? fuel (depth - 1) cs).map fun (items, cs) => (.list items, cs)
    | '\x7b' :: cs =>
      match skipSpace cs with
      | '\x7d' :: cs => some (.table [], cs)
      | cs =>
        if depth = 0 then none
        else (fields? fuel (depth - 1) [] cs).map fun (fields, cs) => (.table fields, cs)
    | cs => scalar? cs

/-- The rest of a list that has at least one more item. -/
def items? : Nat → Nat → List Char → Option (List Value × List Char)
  | 0, _, _ => none
  | fuel + 1, depth, cs => do
    let (item, cs) ← value? fuel depth cs
    match skipSpace cs with
    | ',' :: cs => (items? fuel depth cs).map fun (items, cs) => (item :: items, cs)
    | ']' :: cs => some ([item], cs)
    | _ => none

/-- The rest of a table that has at least one more field, after the fields `done`. -/
def fields? : Nat → Nat → List (String × Value) → List Char →
    Option (List (String × Value) × List Char)
  | 0, _, _, _ => none
  | fuel + 1, depth, done, cs => do
    let (key, cs) ← key? cs
    let (value, cs) ← value? fuel depth cs
    let done := Value.assign key value done
    match skipSpace cs with
    | ',' :: cs => fields? fuel depth done cs
    | '\x7d' :: cs => some (done, cs)
    | _ => none

end

/-- How deep the values of a document may nest. -/
def maxDepth : Nat := 200

/-- The value of a whole document. -/
def read? (text : String) : Option Value := do
  let cs := text.toList
  let (value, rest) ← value? (2 * cs.length + 2) maxDepth cs
  if (skipSpace rest).isEmpty then some value else none

/-! ### Writing -/

/-- An escape of four digits. -/
def unitEscape (unit : Nat) : List Char := '\\' :: 'u' :: Text.hex 4 unit

/-- One character inside a string; beyond ASCII it stays, or becomes the escape of its code units. -/
def writeChar (ascii : Bool) (c : Char) : List Char :=
  if c == '"' || c == '\\' then ['\\', c]
  else if c == '\n' then ['\\', 'n']
  else if c == '\r' then ['\\', 'r']
  else if c == '\t' then ['\\', 't']
  else if c.toNat == 8 then ['\\', 'b']
  else if c.toNat == 12 then ['\\', 'f']
  else if c.toNat < 0x20 then unitEscape c.toNat
  else if !ascii || c.toNat < 0x80 then [c]
  else if c.toNat < 0x10000 then unitEscape c.toNat
  else
    let offset := c.toNat - 0x10000
    unitEscape (0xd800 + offset / 0x400) ++ unitEscape (0xdc00 + offset % 0x400)

/-- A string between its quotes. -/
def writeText (ascii : Bool) (text : String) : String :=
  String.ofList ('"' :: text.toList.flatMap (writeChar ascii) ++ ['"'])

/-- A decimal number with its exponent written out. -/
def writeDecimal (d : Decimal) : String :=
  (if d.negative then "-" else "") ++ toString d.digits ++ "e" ++ toString d.exponent

mutual

/-- The compact form. -/
def write : Value → String
  | .null => "null"
  | .bool b => if b then "true" else "false"
  | .int n => toString n
  | .decimal d => writeDecimal d
  | .text s => writeText false s
  | .other s => writeText false s
  | .list items => "[" ++ ",".intercalate (writeItems items) ++ "]"
  | .table fields => "\x7b" ++ ",".intercalate (writeFields fields) ++ "\x7d"

/-- The items of a list, each in the compact form. -/
def writeItems : List Value → List String
  | [] => []
  | v :: vs => write v :: writeItems vs

/-- The fields of a table, each in the compact form. -/
def writeFields : List (String × Value) → List String
  | [] => []
  | (k, v) :: fields => (writeText false k ++ ":" ++ write v) :: writeFields fields

end

/-- Items between brackets, one a line, at `depth` levels of two blanks. -/
def block (opener closer : String) (depth : Nat) (items : List String) : String :=
  if items.isEmpty then opener ++ closer
  else
    let line (d : Nat) := "\n" ++ String.ofList (List.replicate (2 * d) ' ')
    opener ++ line (depth + 1) ++ ("," ++ line (depth + 1)).intercalate items ++ line depth ++ closer

mutual

/-- The form of reports, at `depth` levels. -/
def writeReport (depth : Nat) : Value → String
  | .null => "null"
  | .bool b => if b then "true" else "false"
  | .int n => toString n
  | .decimal d => writeDecimal d
  | .text s => writeText true s
  | .other s => writeText true s
  | .list items => block "[" "]" depth (reportItems (depth + 1) items)
  | .table fields =>
    block "\x7b" "\x7d" depth
      (((reportFields (depth + 1) fields).mergeSort fun a b => a.1 ≤ b.1).map Prod.snd)

/-- The items of a list in the form of reports. -/
def reportItems (depth : Nat) : List Value → List String
  | [] => []
  | v :: vs => writeReport depth v :: reportItems depth vs

/-- The fields of a table in the form of reports, each with its key. -/
def reportFields (depth : Nat) : List (String × Value) → List (String × String)
  | [] => []
  | (k, v) :: fields =>
    (k, writeText true k ++ ": " ++ writeReport depth v) :: reportFields depth fields

end

end ConversionClosure.Json
