/-
# Decimal texts of numbers

The digits of a number are found by exact integer arithmetic on a quotient of
natural numbers. Three texts are made of them: the shortest decimal that reads
back as the same binary number, written without an exponent; a fixed number of
decimals; and a mantissa with an exponent of ten. The last two are rounded to
nearest with ties to even.

## Main definitions

* `roundTiesEven` rounds a quotient to an integer.
* `Binary.shortest` is the shortest decimal within the rounding interval.
* `fixed` and `scientific` write a quotient with a given number of decimals.
-/

import UnitCalc.Number.Binary

namespace UnitCalc.Number

/-- The integer nearest to `num / den`; a half goes to the even neighbour. -/
def roundTiesEven (num den : Nat) : Nat :=
  let q := num / den
  let r := 2 * (num % den)
  if r < den || (r == den && q % 2 == 0) then q else q + 1

/-- The decimal digits of a natural number. -/
def digits (n : Nat) : List Char :=
  Nat.toDigits 10 n

/-- The exponent of the leading digit of `num / den`, for a positive quotient:
`10 ^ e ≤ num / den < 10 ^ (e + 1)`. -/
def leadingExponent (num den : Nat) : Int :=
  if den ≤ num then ((digits (num / den)).length : Int) - 1
  else -((digits ((den + num - 1) / num - 1)).length : Int)

/-- The quotient in units of `10 ^ exponent`. -/
def inUnitsOf (exponent : Int) (num den : Nat) : Nat × Nat :=
  if exponent < 0 then (num * Nat.pow 10 (-exponent).toNat, den)
  else (num, den * Nat.pow 10 exponent.toNat)

/-- A positive decimal, `coefficient * 10 ^ exponent`. -/
structure DecimalForm where
  coefficient : Nat
  exponent : Int
deriving Repr

namespace DecimalForm

/-- Ten units of one place are one unit of the next. -/
def carried (d : DecimalForm) : DecimalForm :=
  if d.coefficient == 10 then ⟨1, d.exponent + 1⟩ else d

/-- The digits with a point in their place and never an exponent. -/
def positional (d : DecimalForm) : List Char :=
  let ds := digits d.coefficient
  if 0 ≤ d.exponent then ds ++ List.replicate d.exponent.toNat '0'
  else
    let places := (-d.exponent).toNat
    let padded := List.replicate (places + 1 - ds.length) '0' ++ ds
    let (whole, fraction) := padded.splitAt (padded.length - places)
    whole ++ '.' :: fraction

end DecimalForm

namespace Binary

/-- The numbers that round to `b`, all over one denominator: the lower end, `b`
itself and the upper end, and whether the ends are included. -/
structure Interval where
  low : Nat
  centre : Nat
  high : Nat
  den : Nat
  closed : Bool

/-- The rounding interval of a positive number. Below a power of two the
neighbours are twice as close. -/
def interval (format : BinaryFormat) (b : Binary) : Interval :=
  let narrow := b.significand == Nat.pow 2 (format.precision - 1) && format.minExponent < b.exponent
  let low := 4 * b.significand - (if narrow then 1 else 2)
  let centre := 4 * b.significand
  let high := 4 * b.significand + 2
  let closed := b.significand % 2 == 0
  let e := b.exponent - 2
  if e < 0 then ⟨low, centre, high, Nat.pow 2 (-e).toNat, closed⟩
  else
    let k := Nat.pow 2 e.toNat
    ⟨low * k, centre * k, high * k, 1, closed⟩

/-- `n` units of `10 ^ exponent` lie in the interval. -/
def Interval.holds (i : Interval) (exponent : Int) (n : Nat) : Bool :=
  let (num, den) := if exponent < 0 then (n, Nat.pow 10 (-exponent).toNat) else
    (n * Nat.pow 10 exponent.toNat, 1)
  let x := num * i.den
  if i.closed then i.low * den ≤ x && x ≤ i.high * den else i.low * den < x && x < i.high * den

/-- The point of the grid `10 ^ exponent` nearest to the centre, of those two
around it that lie in the interval. A tie goes up. -/
def Interval.onGrid? (i : Interval) (exponent : Int) : Option DecimalForm :=
  let (num, den) := inUnitsOf exponent i.centre i.den
  let below := num / den
  let up := den ≤ 2 * (num % den)
  match i.holds exponent below, i.holds exponent (below + 1) with
  | true, true => some ⟨if up then below + 1 else below, exponent⟩
  | true, false => some ⟨below, exponent⟩
  | false, true => some ⟨below + 1, exponent⟩
  | false, false => none

/-- Seventeen digits tell any two numbers of the formats here apart. -/
def maxDigits : Nat := 17

/-- The shortest decimal that lies in the rounding interval of a positive number,
and of those with equally many digits the nearest. -/
def shortest (format : BinaryFormat) (b : Binary) : DecimalForm :=
  let i := b.interval format
  let lead := leadingExponent i.centre i.den
  match (List.range maxDigits).findSome? fun (n : Nat) => i.onGrid? (lead - n) with
  | some d => d.carried
  | none => ⟨i.centre / i.den, 0⟩

/-- The shortest text that reads back, without an exponent. -/
def text (format : BinaryFormat) (b : Binary) : String :=
  let body := if b.significand == 0 then ['0'] else (b.shortest format).positional
  String.ofList (if b.negative then '-' :: body else body)

end Binary

/-- The shortest text of a number that may be infinite or undefined. -/
def Decoded.text (format : BinaryFormat) : Decoded → String
  | .nan => "NaN"
  | .infinite negative => if negative then "-inf" else "inf"
  | .finite b => b.text format

/-- A number with exactly `places` decimals. -/
def fixed (places : Nat) (b : Binary) : List Char :=
  let (num, den) := b.magnitude
  let body := DecimalForm.positional ⟨roundTiesEven (num * Nat.pow 10 places) den, -(places : Int)⟩
  if b.negative then '-' :: body else body

/-- The mantissa of a positive quotient, `places + 1` digits as one integer, and
the exponent of its first digit. -/
def mantissa (places : Nat) (num den : Nat) : Nat × Int :=
  let lead := leadingExponent num den
  let (num, den) := inUnitsOf (lead - places) num den
  let n := roundTiesEven num den
  if n == Nat.pow 10 (places + 1) then (Nat.pow 10 places, lead + 1) else (n, lead)

/-- A number with one digit before the point, `places` after it and the exponent
of ten behind an `e`. -/
def scientific (places : Nat) (b : Binary) : List Char :=
  let (num, den) := b.magnitude
  let (n, lead) := if num == 0 then (0, 0) else mantissa places num den
  let body := DecimalForm.positional ⟨n, -(places : Int)⟩
  let exponent := if lead < 0 then '-' :: digits lead.natAbs else digits lead.natAbs
  (if b.negative then '-' :: body else body) ++ 'e' :: exponent

end UnitCalc.Number
