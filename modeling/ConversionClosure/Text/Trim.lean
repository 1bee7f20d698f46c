/-
Blanks at the ends of a text, and the lines of a text.
-/
import ConversionClosure.Text.Class

namespace ConversionClosure.Text

/-- A list of characters without the blanks at its end. -/
def trimEndChars (cs : List Char) : List Char :=
  (cs.reverse.dropWhile isBlank).reverse

/-- A text without the blanks at its end. -/
def trimEnd (text : String) : String :=
  String.ofList (trimEndChars text.toList)

/-- A text without the blanks at both ends. -/
def trim (text : String) : String :=
  String.ofList (trimEndChars (text.toList.dropWhile isBlank))

/-- A character that ends a line on its own. -/
def isLineBreak (c : Char) : Bool :=
  (10 ≤ c.toNat && c.toNat ≤ 13) || (0x1c ≤ c.toNat && c.toNat ≤ 0x1e) || c.toNat == 0x85 ||
    c.toNat == 0x2028 || c.toNat == 0x2029

/-- The lines of a list of characters, the first of which has begun with `begun`.  A carriage
return and the line feed after it are one break, and a final break begins no further line. -/
def linesFrom (begun : List Char) : List Char → List (List Char)
  | [] => if begun.isEmpty then [] else [begun]
  | '\r' :: '\n' :: cs => begun :: linesFrom [] cs
  | c :: cs => if isLineBreak c then begun :: linesFrom [] cs else linesFrom (begun ++ [c]) cs

/-- The lines of a text, without their breaks. -/
def lines (text : String) : List String :=
  (linesFrom [] text.toList).map String.ofList

end ConversionClosure.Text
