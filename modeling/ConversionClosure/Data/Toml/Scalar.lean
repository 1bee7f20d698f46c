/-
Scalars of TOML documents.

Texts are written in four ways: between single marks on one line or between triple marks on
several, with escapes between double marks and without them between single ones.  Numbers,
dates and times are recognized by their shape.  Every reader gives what it has read and the
text after it.

An integer in base ten may be well written and still have too many digits.  That is another
fault than a text that is no document, so the readers of values say which of the two it is.
-/
import ConversionClosure.Data.Value
import ConversionClosure.Text.Numeral

namespace ConversionClosure.Toml

/-- Why a text cannot be read: it is no document, or an integer in it has too many digits. -/
inductive ReadFault
  | malformed
  | tooManyDigits (count : Nat)
deriving DecidableEq, Repr

/-- What a reader gives that recognizes by shape alone; if it gives nothing the text is no
document. -/
def orMalformed {α : Type} (result : Option α) : Except ReadFault α :=
  (result.map .ok).getD (.error .malformed)

/-- White space within a line. -/
def isSpace (c : Char) : Bool := c == ' ' || c == '\t'

/-- The text after the white space at its start. -/
def skipSpace (cs : List Char) : List Char := cs.dropWhile isSpace

/-- A control character, which may stand neither in a text nor in a comment. -/
def isControl (c : Char) : Bool := (c.toNat < 0x20 && c != '\t') || c.toNat == 0x7f

/-- The text after a character that has to be there. -/
def expect? (expected : Char) : List Char → Option (List Char)
  | [] => none
  | c :: cs => if c = expected then some cs else none

/-! ### Texts -/

/-- The character whose code is written with `width` digits in base sixteen. -/
def scalar? (width : Nat) (cs : List Char) : Option (Char × List Char) := do
  let digits := cs.take width
  let code ← Text.hexValues? digits
  if digits.length = width ∧ code.isValidChar then some (Char.ofNat code, cs.drop width) else none

/-- The character that an escape stands for, after its backslash. -/
def escape? : List Char → Option (Char × List Char)
  | [] => none
  | c :: cs =>
    match c with
    | 'b' => some ('\x08', cs)
    | 't' => some ('\t', cs)
    | 'n' => some ('\n', cs)
    | 'f' => some ('\x0c', cs)
    | 'r' => some ('\r', cs)
    | '"' => some ('"', cs)
    | '\\' => some ('\\', cs)
    | 'u' => scalar? 4 cs
    | 'U' => scalar? 8 cs
    | _ => none

/-- The text where it goes on after a backslash at the end of a line. -/
def continuation? (cs : List Char) : Option (List Char) :=
  match skipSpace cs with
  | '\n' :: rest => some (rest.dropWhile fun c => isSpace c || c == '\n')
  | _ => none

/-- The rest of a text with escapes on one line; `fuel` bounds the number of characters. -/
def escapedLine? : Nat → List Char → Option (List Char × List Char)
  | 0, _ => none
  | _, [] => none
  | _, '"' :: rest => some ([], rest)
  | fuel + 1, '\\' :: cs => do
    let (c, cs) ← escape? cs
    (escapedLine? fuel cs).map fun (text, rest) => (c :: text, rest)
  | fuel + 1, c :: cs =>
    if isControl c then none
    else (escapedLine? fuel cs).map fun (text, rest) => (c :: text, rest)

/-- The rest of a text without escapes on one line. -/
def plainLine? : List Char → Option (List Char × List Char)
  | [] => none
  | '\'' :: rest => some ([], rest)
  | c :: cs =>
    if isControl c then none else (plainLine? cs).map fun (text, rest) => (c :: text, rest)

/-- What follows a triple mark: up to two further marks belong to the text before it. -/
def closing (mark : Char) (cs : List Char) : List Char × List Char :=
  let more := (cs.takeWhile (· == mark)).take 2
  (more, cs.drop more.length)

/-- The rest of a text with escapes on several lines; `fuel` bounds the number of characters. -/
def escapedBlock? : Nat → List Char → Option (List Char × List Char)
  | 0, _ => none
  | _, [] => none
  | _, '"' :: '"' :: '"' :: rest => some (closing '"' rest)
  | fuel + 1, '\\' :: cs =>
    match continuation? cs with
    | some cs => escapedBlock? fuel cs
    | none => do
      let (c, cs) ← escape? cs
      (escapedBlock? fuel cs).map fun (text, rest) => (c :: text, rest)
  | fuel + 1, c :: cs =>
    if isControl c && c != '\n' then none
    else (escapedBlock? fuel cs).map fun (text, rest) => (c :: text, rest)

/-- The rest of a text without escapes on several lines. -/
def plainBlock? : List Char → Option (List Char × List Char)
  | [] => none
  | '\'' :: '\'' :: '\'' :: rest => some (closing '\'' rest)
  | c :: cs =>
    if isControl c && c != '\n' then none
    else (plainBlock? cs).map fun (text, rest) => (c :: text, rest)

/-- The text after a line break at its start, which does not belong to a text on several lines. -/
def skipBreak : List Char → List Char
  | '\n' :: cs => cs
  | cs => cs

/-- A text on one line. -/
def line? : List Char → Option (List Char × List Char)
  | '"' :: cs => escapedLine? (cs.length + 1) cs
  | '\'' :: cs => plainLine? cs
  | _ => none

/-- A text on one line or on several. -/
def text? : List Char → Option (List Char × List Char)
  | '"' :: '"' :: '"' :: cs => escapedBlock? (cs.length + 1) (skipBreak cs)
  | '\'' :: '\'' :: '\'' :: cs => plainBlock? (skipBreak cs)
  | cs => line? cs

/-! ### Numbers -/

/-- Further digits of a class, where one underscore may stand before each. -/
def moreDigits (isDigit : Char → Bool) : List Char → List Char × List Char
  | [] => ([], [])
  | '_' :: c :: cs =>
    if isDigit c then
      let (digits, rest) := moreDigits isDigit cs
      (c :: digits, rest)
    else ([], '_' :: c :: cs)
  | c :: cs =>
    if isDigit c then
      let (digits, rest) := moreDigits isDigit cs
      (c :: digits, rest)
    else ([], c :: cs)

/-- One or more digits of a class, without their underscores. -/
def digits? (isDigit : Char → Bool) : List Char → Option (List Char × List Char)
  | [] => none
  | c :: cs =>
    if isDigit c then
      let (digits, rest) := moreDigits isDigit cs
      some (c :: digits, rest)
    else none

/-- A digit in base `base`. -/
def isDigitIn (base : Nat) (c : Char) : Bool := (Text.hexValue? c).any (· < base)

/-- An integer in a base of sixteen or less, after the mark of the base. -/
def inBase? (base : Nat) (cs : List Char) : Option (Value × List Char) := do
  let (digits, rest) ← digits? (isDigitIn base) cs
  let n := digits.foldl (fun n c => base * n + (Text.hexValue? c).getD 0) 0
  return (.int n, rest)

/-- The digits before the point of a number: a zero stands alone. -/
def whole? : List Char → Option (List Char × List Char)
  | '0' :: cs => some (['0'], cs)
  | cs => digits? Char.isDigit cs

/-- The digits after a point, if it is followed by some. -/
def fraction? : List Char → Option (List Char × List Char)
  | '.' :: cs => digits? Char.isDigit cs
  | _ => none

/-- The exponent after an `e`, if it is followed by one. -/
def exponent? : List Char → Option (Int × List Char)
  | [] => none
  | e :: cs =>
    if e = 'e' ∨ e = 'E' then do
      let (negative, cs) := Text.sign cs
      let (digits, rest) ← digits? Char.isDigit cs
      return (Text.withSign negative (Text.natOfDigits digits), rest)
    else none

/-- A number in base ten.  Only an integer has a greatest number of digits. -/
def decimal (cs : List Char) : Except ReadFault (Value × List Char) := do
  let (negative, cs) := Text.sign cs
  let (digits, cs) ← orMalformed (whole? cs)
  let fraction := fraction? cs
  let cs := (fraction.map Prod.snd).getD cs
  let exponent := exponent? cs
  let cs := (exponent.map Prod.snd).getD cs
  if fraction.isNone && exponent.isNone then
    if Text.maxDigits < digits.length then throw (.tooManyDigits digits.length)
    return (.int (Text.withSign negative (Text.natOfDigits digits)), cs)
  else
    let places := (fraction.map Prod.fst).getD []
    let power := (exponent.map Prod.fst).getD 0 - places.length
    return (.decimal ⟨negative, Text.natOfDigits (digits ++ places), power⟩, cs)

/-- A number that is finite. -/
def number : List Char → Except ReadFault (Value × List Char)
  | '0' :: 'x' :: cs => orMalformed (inBase? 16 cs)
  | '0' :: 'o' :: cs => orMalformed (inBase? 8 cs)
  | '0' :: 'b' :: cs => orMalformed (inBase? 2 cs)
  | cs => decimal cs

/-! ### Dates and times -/

/-- A number from `low` to `high` that is written with `width` digits. -/
def field? (width low high : Nat) (cs : List Char) : Option (Nat × List Char) :=
  let digits := cs.take width
  let n := Text.natOfDigits digits
  if digits.length = width ∧ digits.all Char.isDigit ∧ low ≤ n ∧ n ≤ high then
    some (n, cs.drop width)
  else none

/-- The text after a fraction of a second, if there is one. -/
def skipFraction : List Char → List Char
  | '.' :: c :: cs => if c.isDigit then cs.dropWhile Char.isDigit else '.' :: c :: cs
  | cs => cs

/-- The text after a time of day. -/
def time? (cs : List Char) : Option (List Char) := do
  let (_, cs) ← field? 2 0 23 cs
  let (_, cs) ← field? 2 0 59 (← expect? ':' cs)
  let (_, cs) ← field? 2 0 59 (← expect? ':' cs)
  return skipFraction cs

/-- The text after a distance from universal time. -/
def offset? : List Char → Option (List Char)
  | [] => none
  | c :: cs =>
    if c = 'Z' ∨ c = 'z' then some cs
    else if c = '+' ∨ c = '-' then do
      let (_, cs) ← field? 2 0 23 cs
      let (_, cs) ← field? 2 0 59 (← expect? ':' cs)
      return cs
    else none

/-- The number of days of a month. -/
def daysIn (year month : Nat) : Nat :=
  if month = 2 then
    if year % 4 = 0 ∧ (year % 100 ≠ 0 ∨ year % 400 = 0) then 29 else 28
  else if month = 4 ∨ month = 6 ∨ month = 9 ∨ month = 11 then 30
  else 31

/-- The text after a day of the calendar. -/
def day? (cs : List Char) : Option (List Char) := do
  let (year, cs) ← field? 4 1 9999 cs
  let (month, cs) ← field? 2 1 12 (← expect? '-' cs)
  let (_, cs) ← field? 2 1 (daysIn year month) (← expect? '-' cs)
  return cs

/-- The text after a time of day on a day, if there is one. -/
def timeOfDay? : List Char → Option (List Char)
  | [] => none
  | c :: cs =>
    if c = 'T' ∨ c = 't' ∨ c = ' ' then do
      let cs ← time? cs
      return (offset? cs).getD cs
    else none

/-- A day with or without a time, or a time alone, as it is written. -/
def moment? (cs : List Char) : Option (Value × List Char) := do
  let rest ← ((day? cs).map fun rest => (timeOfDay? rest).getD rest) <|> time? cs
  return (.other (String.ofList (cs.take (cs.length - rest.length))), rest)

/-! ### All together -/

/-- The words that are values. -/
def words : List (String × Value) :=
  [("true", .bool true), ("false", .bool false), ("inf", .other "inf"), ("+inf", .other "+inf"),
    ("-inf", .other "-inf"), ("nan", .other "nan"), ("+nan", .other "+nan"), ("-nan", .other "-nan")]

/-- The word at the start of a text. -/
def word? (cs : List Char) : Option (Value × List Char) :=
  words.findSome? fun (word, v) =>
    if word.toList.isPrefixOf cs then some (v, cs.drop word.length) else none

/-- A value that is neither a list nor a table. -/
def scalarValue (cs : List Char) : Except ReadFault (Value × List Char) :=
  match ((text? cs).map fun (text, rest) => (.text (String.ofList text), rest)) <|>
      word? cs <|> moment? cs with
  | some read => .ok read
  | none => number cs

end ConversionClosure.Toml
