/-
Texts in messages.

A quoted text stands between single quotes, or between double quotes when it holds a
single quote and no double one.  What is not printable is written as an escape, so a
message is always one line of visible characters.
-/
import ConversionClosure.Text.Class

namespace ConversionClosure.Text

/-- The digits of a number in base sixteen, at least `width` of them. -/
def hex (width n : Nat) : List Char :=
  let digits := Nat.toDigits 16 n
  List.replicate (width - digits.length) '0' ++ digits

/-- One character inside a quoted text. -/
def quotedChar (mark c : Char) : List Char :=
  if c == mark || c == '\\' then ['\\', c]
  else if c == '\n' then ['\\', 'n']
  else if c == '\r' then ['\\', 'r']
  else if c == '\t' then ['\\', 't']
  else if isPrintable c then [c]
  else if c.toNat < 0x100 then '\\' :: 'x' :: hex 2 c.toNat
  else if c.toNat < 0x10000 then '\\' :: 'u' :: hex 4 c.toNat
  else '\\' :: 'U' :: hex 8 c.toNat

/-- The quotation mark that needs the fewest escapes. -/
def quoteMark (cs : List Char) : Char :=
  if cs.contains '\'' && !cs.contains '"' then '"' else '\''

/-- A text as a message shows it. -/
def quoted (text : String) : String :=
  let cs := text.toList
  let mark := quoteMark cs
  String.ofList (mark :: cs.flatMap (quotedChar mark) ++ [mark])

/-- The most characters of a quoted text that a message about it shows. -/
def clipLimit : Nat := 200

/-- The start of a text as a message shows it; a long one loses its end, closing mark included. -/
def quotedStart (text : String) : String := String.ofList ((quoted text).toList.take clipLimit)

end ConversionClosure.Text
