/-
# Double precision scalars

The scalars of the running calculator are double precision numbers and its
exponents single precision ones. Operations that the hardware does not offer are
exact where they can be, the remainder and the conversions, and accurate to the
last few bits elsewhere.
-/

import UnitCalc.Number.Decimal
import UnitCalc.Number.Scalar

namespace UnitCalc.Number

/-- The bits of a double precision number, decoded. -/
def decodeDouble (x : Float) : Decoded :=
  double.decode x.toBits.toNat

/-- The bits of a single precision number, decoded. -/
def decodeSingle (x : Float32) : Decoded :=
  single.decode x.toBits.toNat

/-- The number `n * 2 ^ e`; exact when it is a double precision number. -/
def scaled (n : Nat) (e : Int) : Float :=
  let excess := n.log2 + 1 - double.precision
  (Float.ofNat (n >>> excess)).scaleB (e + excess)

/-- The double precision number nearest to `coefficient * 10 ^ exponent`. Beyond
the range the power is not computed. -/
def nearest (coefficient : Nat) (exponent : Int) : Float :=
  let lead := exponent + (digits coefficient).length
  if coefficient == 0 || lead < -330 then 0
  else if 310 < lead then 1.0 / 0.0
  else Float.ofScientific coefficient (exponent < 0) exponent.natAbs

/-- The integer part, toward zero. -/
def truncate (x : Float) : Float :=
  if x < 0 then x.ceil else x.floor

/-- The exact remainder of a division truncated toward zero, with the sign of the
dividend. -/
def remainder (x y : Float) : Float :=
  match decodeDouble x, decodeDouble y with
  | .finite a, .finite b =>
    if b.significand == 0 then 0.0 / 0.0
    else
      let e := min a.exponent b.exponent
      let m := a.significand * Nat.pow 2 (a.exponent - e).toNat
      let n := b.significand * Nat.pow 2 (b.exponent - e).toNat
      let r := scaled (m % n) e
      if a.negative then -r else r
  | .finite _, .infinite _ => x
  | _, _ => 0.0 / 0.0

/-- The logarithm of `1 + x`, accurate for small `x`: the rounding of the sum is
made up for by the quotient. -/
def logOnePlus (x : Float) : Float :=
  let u := 1.0 + x
  if u == 1.0 then x
  else if x.isInf then (if 0 < x then x else 0.0 / 0.0)
  else u.log * (x / (u - 1.0))

/-- The length of the hypotenuse. Scaling by a power of two keeps the squares in
range. -/
def hypotenuse (x y : Float) : Float :=
  let a := x.abs
  let b := y.abs
  if a.isInf || b.isInf then 1.0 / 0.0
  else if a.isNaN || b.isNaN then 0.0 / 0.0
  else
    let m := if a < b then b else a
    if m == 0 then 0
    else
      let e := m.frExp.2
      let a := a.scaleB (-e)
      let b := b.scaleB (-e)
      ((a * a + b * b).sqrt).scaleB e

/-- The distance to the next larger number. -/
def spacing (x : Float) : Float :=
  let bits := if 0 < x then x.toBits + 1 else x.toBits - 1
  (Float.ofBits bits - x).abs

/-- The integer toward zero, held within the 64 bit range; zero for an undefined
number. -/
def toInteger (x : Float) : Int :=
  x.toInt64.toInt

end UnitCalc.Number

namespace UnitCalc

open Number

instance : Scalar Float where
  zero := 0.0
  one := 1.0
  add := Float.add
  sub := Float.sub
  mul := Float.mul
  div := Float.div
  neg := Float.neg
  lt a b := a < b
  le a b := a ≤ b
  beq := Float.beq
  ofScientific coefficient negative exponent :=
    nearest coefficient (if negative then -(exponent : Int) else exponent)
  decideLt := Float.decLt
  decideLe := Float.decLe
  nan := 0.0 / 0.0
  infinity := 1.0 / 0.0
  isNaN := Float.isNaN
  isInfinite := Float.isInf
  isNegative x := x.toBits >>> 63 == 1
  pi := 3.141592653589793
  ofInt := Float.ofInt
  toInt := toInteger
  abs := Float.abs
  floor := Float.floor
  ceiling := Float.ceil
  round := Float.round
  truncate := truncate
  remainder := remainder
  sqrt := Float.sqrt
  cbrt := Float.cbrt
  hypot := hypotenuse
  pow := Float.pow
  exp := Float.exp
  ln := Float.log
  log2 := Float.log2
  log10 := Float.log10
  sin := Float.sin
  cos := Float.cos
  tan := Float.tan
  asin := Float.asin
  acos := Float.acos
  atan := Float.atan
  atan2 := Float.atan2
  sinh := Float.sinh
  cosh := Float.cosh
  tanh := Float.tanh
  asinh := Float.asinh
  acosh := Float.acosh
  atanh x := 0.5 * logOnePlus (2.0 * x / (1.0 - x))
  spacing := spacing
  text x := (decodeDouble x).text double

/-- The order in which single precision exponents are shown: larger first, a zero
before its negative, undefined ones last. -/
def exponentShowsBefore (a b : Float32) : Bool :=
  if b.isNaN then true
  else if a.isNaN then false
  else if a == b then a.toBits >>> 31 ≤ b.toBits >>> 31
  else b < a

instance : Exponent Float32 where
  zero := 0.0
  one := 1.0
  add := Float32.add
  sub := Float32.sub
  mul := Float32.mul
  div := Float32.div
  neg := Float32.neg
  lt a b := a < b
  beq := Float32.beq
  decideLt := Float32.decLt
  toInt? x := match decodeSingle x with
    | .finite b => b.toInt?
    | _ => none
  text x := (decodeSingle x).text single
  showsBefore := exponentShowsBefore

instance : Narrowing Float Float32 where
  narrow := Float.toFloat32
  widen := Float32.toFloat

end UnitCalc
