/-
Decimal numbers and the binary numbers they stand for.

A decimal number is kept as it is written.  Where a computation needs it, it stands for the
nearest number with a significand of 53 bits, ties going to the even one.  The shown text of
such a number is the shortest decimal that stands for it again: positional for exponents from
-4 to 15, and with at least two digits in the exponent otherwise.
-/

namespace ConversionClosure

/-- A decimal number as written: `digits` times ten to the power `exponent`, with its sign. -/
structure Decimal where
  negative : Bool
  digits : Nat
  exponent : Int
deriving DecidableEq, Repr

/-- A quotient of natural numbers. -/
structure Ratio where
  num : Nat
  den : Nat

namespace Ratio

/-- The quotient times a power of a base. -/
def scale (r : Ratio) (base : Nat) (power : Int) : Ratio :=
  if 0 ≤ power then ⟨r.num * Nat.pow base power.toNat, r.den⟩
  else ⟨r.num, r.den * Nat.pow base (-power).toNat⟩

/-- Comparison of quotients with positive denominators. -/
def le (r s : Ratio) : Bool := r.num * s.den ≤ s.num * r.den

/-- Strict comparison of quotients with positive denominators. -/
def lt (r s : Ratio) : Bool := r.num * s.den < s.num * r.den

/-- The nearest natural number, of two the even one. -/
def round (r : Ratio) : Nat :=
  let floor := r.num / r.den
  let rest := 2 * (r.num % r.den)
  if r.den < rest ∨ (rest = r.den ∧ floor % 2 = 1) then floor + 1 else floor

/-- The greatest power of two that is not above a positive quotient. -/
def log2 (r : Ratio) : Int :=
  let guess : Int := Nat.log2 r.num - Nat.log2 r.den
  if le (scale ⟨1, 1⟩ 2 guess) r then guess else guess - 1

/-- The greatest power of ten that is not above a positive quotient, from -400 on. -/
def log10 (r : Ratio) : Int :=
  if r.den ≤ r.num then (Nat.toDigits 10 (r.num / r.den)).length - 1
  else
    let fits (power : Nat) : Bool := le ⟨1, 1⟩ (scale r 10 power)
    Int.neg (((List.range 400).find? fits).getD 400 : Nat)

end Ratio

/-- A number with a significand of 53 bits: `significand` times two to the power `exponent`. -/
structure Binary where
  significand : Nat
  exponent : Int
deriving DecidableEq, Repr

namespace Binary

/-- The least exponent of a number. -/
def minExponent : Int := -1074

/-- The greatest exponent of a number. -/
def maxExponent : Int := 971

/-- The number as a quotient. -/
def ratio (b : Binary) : Ratio := Ratio.scale ⟨b.significand, 1⟩ 2 b.exponent

/-- The whole part. -/
def truncate (b : Binary) : Nat := b.ratio.num / b.ratio.den

/-- The number nearest to a positive quotient; `none` if that is beyond all numbers. -/
def nearest? (r : Ratio) : Option Binary :=
  let exponent := max (r.log2 - 52) minExponent
  let significand := (r.scale 2 (-exponent)).round
  let b : Binary :=
    if significand = Nat.pow 2 53 then ⟨Nat.pow 2 52, exponent + 1⟩ else ⟨significand, exponent⟩
  if maxExponent < b.exponent then none else some b

/-- A decimal lies among the numbers that are nearest to `b`: at most half way to the neighbours,
and exactly half way if the significand is even. -/
def covers (b : Binary) (r : Ratio) : Bool :=
  let below := if b.significand = Nat.pow 2 52 ∧ minExponent < b.exponent then 1 else 2
  let low := Ratio.scale ⟨4 * b.significand - below, 1⟩ 2 (b.exponent - 2)
  let high := Ratio.scale ⟨4 * b.significand + 2, 1⟩ 2 (b.exponent - 2)
  if b.significand % 2 = 0 then low.le r && r.le high else low.lt r && r.lt high

/-- The decimal with `count` digits nearest to `b`, if it stands for `b`: digits and exponent. -/
def decimal? (b : Binary) (count : Nat) : Option (Nat × Int) :=
  let exponent := b.ratio.log10 - count + 1
  let onGrid := b.ratio.scale 10 (-exponent)
  let floor := onGrid.num / onGrid.den
  let value (n : Nat) : Ratio := Ratio.scale ⟨n, 1⟩ 10 exponent
  match b.covers (value floor), b.covers (value (floor + 1)) with
  | true, true => some (onGrid.round, exponent)
  | true, false => some (floor, exponent)
  | false, true => some (floor + 1, exponent)
  | false, false => none

/-- The shortest decimal that stands for a positive number. -/
def shortest (b : Binary) : Nat × Int :=
  ((List.range 17).findSome? fun count => b.decimal? (count + 1)).getD (0, 0)

end Binary

namespace Decimal

/-- The number of digits before the point, less for numbers below one tenth. -/
def magnitude (d : Decimal) : Int := (Nat.toDigits 10 d.digits).length + d.exponent

/-- The number without its sign that a decimal stands for; `none` if it is beyond all numbers. -/
def nearest? (d : Decimal) : Option Binary :=
  if d.digits = 0 ∨ d.magnitude < -400 then some ⟨0, 0⟩
  else if 400 < d.magnitude then none
  else Binary.nearest? (Ratio.scale ⟨d.digits, 1⟩ 10 d.exponent)

/-- The number as an integer, cut off toward zero. -/
def truncate? (d : Decimal) : Option Int :=
  d.nearest?.map fun b => if d.negative then -(b.truncate : Int) else b.truncate

/-- The number is an integer. -/
def isWhole (d : Decimal) : Bool :=
  d.nearest?.any fun b => b.ratio.num % b.ratio.den == 0

/-- Digits with a decimal point after the first `before` of them. -/
def positional (digits : List Char) (before : Int) : List Char :=
  if before ≤ 0 then '0' :: '.' :: List.replicate (-before).toNat '0' ++ digits
  else
    let whole := digits.take before.toNat
    let rest := digits.drop before.toNat
    whole ++ List.replicate (before.toNat - whole.length) '0' ++
      '.' :: (if rest.isEmpty then ['0'] else rest)

/-- Digits with the point after the first one, and the exponent. -/
def scientific (digits : List Char) (exponent : Int) : List Char :=
  let power := Nat.toDigits 10 exponent.natAbs
  digits.take 1 ++ (if digits.length ≤ 1 then [] else '.' :: digits.drop 1) ++
    'e' :: (if exponent < 0 then '-' else '+') ::
      (List.replicate (2 - power.length) '0' ++ power)

/-- The shown text of a decimal: its shortest form. -/
def shown (d : Decimal) : String :=
  let size :=
    match d.nearest? with
    | none => ['i', 'n', 'f']
    | some b =>
      if b.significand = 0 then ['0', '.', '0']
      else
        let (n, exponent) := b.shortest
        let all := Nat.toDigits 10 n
        let digits := (all.reverse.dropWhile (· == '0')).reverse
        let before := all.length + exponent
        if -4 < before ∧ before ≤ 16 then positional digits before else scientific digits (before - 1)
  String.ofList (if d.negative then '-' :: size else size)

end Decimal

end ConversionClosure
