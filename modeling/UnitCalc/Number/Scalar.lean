/-
# Scalars and exponents

Measurements are computed over any scalar type with arithmetic, an order, the
elementary functions and a text; units carry exponents of a second, narrower
number type. The calculator runs on double precision scalars and single
precision exponents, and the same definitions can be read over the real numbers.

## Main definitions

* `Scalar` is the interface of the numbers of a measurement.
* `Exponent` is the interface of the exponents of a unit.
* `Narrowing` links the two.
-/

import UnitCalc.Number.Literal

namespace UnitCalc

/-- Numbers with ordered arithmetic, elementary functions and a text. Special
values, when the type has them, are recognised by `isNaN` and `isInfinite`. -/
class Scalar (R : Type) extends Zero R, One R, Add R, Sub R, Mul R, Div R, Neg R, LT R, LE R,
    BEq R, OfScientific R where
  decideLt : DecidableLT R
  decideLe : DecidableLE R
  /-- The value of an undefined operation. -/
  nan : R
  /-- The value beyond every finite number. -/
  infinity : R
  isNaN : R → Bool
  isInfinite : R → Bool
  /-- The sign bit is set, which also tells a negative zero. -/
  isNegative : R → Bool
  /-- The ratio of a circle's circumference to its diameter. -/
  pi : R
  ofInt : Int → R
  /-- The integer toward zero; the ends of the 64 bit range when it is beyond them. -/
  toInt : R → Int
  abs : R → R
  floor : R → R
  ceiling : R → R
  /-- The nearest integer; a half goes away from zero. -/
  round : R → R
  /-- The integer part, toward zero. -/
  truncate : R → R
  /-- The remainder of a division truncated toward zero. -/
  remainder : R → R → R
  sqrt : R → R
  cbrt : R → R
  hypot : R → R → R
  pow : R → R → R
  exp : R → R
  ln : R → R
  log2 : R → R
  log10 : R → R
  sin : R → R
  cos : R → R
  tan : R → R
  asin : R → R
  acos : R → R
  atan : R → R
  atan2 : R → R → R
  sinh : R → R
  cosh : R → R
  tanh : R → R
  asinh : R → R
  acosh : R → R
  atanh : R → R
  /-- The distance to the next larger number. -/
  spacing : R → R
  /-- The shortest text that reads back. -/
  text : R → String

instance Scalar.instDecidableLT {R : Type} [Scalar R] : DecidableLT R := Scalar.decideLt

instance Scalar.instDecidableLE {R : Type} [Scalar R] : DecidableLE R := Scalar.decideLe

/-- Exponents of units: a number type with a text and an order of display. -/
class Exponent (E : Type) extends Zero E, One E, Add E, Sub E, Mul E, Div E, Neg E, LT E,
    BEq E where
  decideLt : DecidableLT E
  /-- The integer the exponent is, when it is one. -/
  toInt? : E → Option Int
  text : E → String
  /-- Whether the first exponent may be shown before the second: larger exponents
  come first. -/
  showsBefore : E → E → Bool

instance Exponent.instDecidableLT {E : Type} [Exponent E] : DecidableLT E :=
  Exponent.decideLt

/-- Rounding a scalar to an exponent, and the scalar that an exponent is. -/
class Narrowing (R E : Type) where
  narrow : R → E
  widen : E → R

namespace Scalar

variable {R : Type} [Scalar R]

/-- Neither undefined nor infinite. -/
def isFinite (x : R) : Bool :=
  !isNaN x && !isInfinite x

/-- The part after the point, with the sign of the number. -/
def fraction (x : R) : R :=
  x - truncate x

/-- A number with no part after the point; infinities are not integral. -/
def isIntegral (x : R) : Bool :=
  fraction x == 0

/-- One with the sign of the number, also for zeros. -/
def signum (x : R) : R :=
  if isNaN x then x else if isNegative x then -1 else 1

/-- The smaller of two numbers; an undefined one gives way to the other. -/
def least (a b : R) : R :=
  if isNaN a then b else if isNaN b then a else if b < a then b else a

/-- The larger of two numbers; an undefined one gives way to the other. -/
def greatest (a b : R) : R :=
  if isNaN a then b else if isNaN b then a else if a < b then b else a

/-- The number moved to the nearer end of an interval when it is outside. -/
def clamp (low high x : R) : R :=
  if x < low then low else if high < x then high else x

/-- A natural power by repeated squaring. -/
def powNat (a : R) (n : Nat) : R :=
  go a n 1
where
  /-- The product of `r` and `a ^ n`. -/
  go (a : R) (n : Nat) (r : R) : R :=
    if _positive : 0 < n then
      let r := if n % 2 == 1 then r * a else r
      if n / 2 == 0 then r else go (a * a) (n / 2) r
    else r
  termination_by n

/-- An integer power; a negative one is the reciprocal of the positive one. -/
def powInt (a : R) (n : Int) : R :=
  let r := powNat a n.natAbs
  if n < 0 then 1 / r else r

/-- The scalar that a number literal denotes. -/
def ofLiteral : Number.Literal → R
  | .nan => nan
  | .infinite negative => if negative then -infinity else infinity
  | .decimal negative coefficient exponent =>
    let x : R := OfScientific.ofScientific coefficient (exponent < 0) exponent.natAbs
    if negative then -x else x

/-- Reads a number literal. -/
def read (s : String) : Option R :=
  (Number.Literal.read s).map ofLiteral

end Scalar

end UnitCalc
