/-
Integers in texts.

A numeral has an optional sign and decimal digits of any script, with single underscores
allowed between digits.  Blanks around it are dropped, the four ASCII separators excepted.
Data formats are stricter: they write numbers with ASCII digits in base ten or sixteen.

Base ten is not the base in which integers are kept, and changing the base of a long integer
takes long, so a numeral in base ten has a greatest number of digits.
-/
import ConversionClosure.Text.Quoted

namespace ConversionClosure.Text

/-- A blank that may stand around a numeral. -/
def isNumeralBlank (c : Char) : Bool := isBlank c && !(0x1c ≤ c.toNat && c.toNat ≤ 0x1f)

/-- A list of characters without the characters of a class at both ends. -/
def stripChars (drop : Char → Bool) (cs : List Char) : List Char :=
  ((cs.dropWhile drop).reverse.dropWhile drop).reverse

/-- The number that digits write after `value`; an underscore stands between two digits. -/
def digitsFrom? (value : Nat) : List Char → Option Nat
  | [] => some value
  | '_' :: c :: cs => do digitsFrom? (10 * value + (← decimalValue? c)) cs
  | c :: cs => do digitsFrom? (10 * value + (← decimalValue? c)) cs

/-- The number that one or more digits write. -/
def digits? : List Char → Option Nat
  | [] => none
  | c :: cs => do digitsFrom? (← decimalValue? c) cs

/-- The sign at the start of a number, and what it is the sign of: whether it is negative. -/
def sign : List Char → Bool × List Char
  | '-' :: cs => (true, cs)
  | '+' :: cs => (false, cs)
  | cs => (false, cs)

/-- A natural number with a sign. -/
def withSign (negative : Bool) (n : Nat) : Int := if negative then -(n : Int) else n

/-- The most digits of an integer in base ten. -/
def maxDigits : Nat := 4300

/-- Why a text writes no integer. -/
inductive IntegerFault
  | malformed
  | tooManyDigits (count : Nat)
deriving DecidableEq, Repr

/-- The digits at the start of a list of characters, with the underscores among them. -/
def leadingDigits (cs : List Char) : List Char :=
  cs.takeWhile fun c => c == '_' || (decimalValue? c).isSome

/-- The integer that a text writes.  Its digits are counted before what follows them is looked
at. -/
def integer (text : String) : Except IntegerFault Int :=
  let (negative, cs) := sign (stripChars isNumeralBlank text.toList)
  let leading := leadingDigits cs
  let count := leading.countP (· != '_')
  if (digits? leading).isSome && maxDigits < count then .error (.tooManyDigits count)
  else
    match digits? cs with
    | some n => .ok (withSign negative n)
    | none => .error .malformed

/-! ### ASCII digits -/

/-- The number that decimal digits write. -/
def natOfDigits (cs : List Char) : Nat :=
  cs.foldl (fun n c => 10 * n + (c.toNat - '0'.toNat)) 0

/-- The value of a digit in base sixteen. -/
def hexValue? (c : Char) : Option Nat :=
  if c.isDigit then some (c.toNat - '0'.toNat)
  else if 'a' ≤ c ∧ c ≤ 'f' then some (c.toNat - 'a'.toNat + 10)
  else if 'A' ≤ c ∧ c ≤ 'F' then some (c.toNat - 'A'.toNat + 10)
  else none

/-- The value of digits in base sixteen. -/
def hexValues? (cs : List Char) : Option Nat :=
  cs.foldlM (fun n c => (hexValue? c).map (16 * n + ·)) 0

end ConversionClosure.Text
