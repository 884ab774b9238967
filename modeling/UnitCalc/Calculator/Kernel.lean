/-
# Numeric kernels

The arithmetic on bare numbers behind the operators and functions. The real kernel
works on the real parts alone; the complex kernel uses the complex formulas, and the
real ones where all imaginary parts are zero and the result is real.
-/

import UnitCalc.Calculator.Operation
import UnitCalc.Number.Complex

namespace UnitCalc

/-- The operations on numbers that differ between real and complex mode. Functions also
get the number that was drawn for `random`. -/
structure Kernel (R : Type) where
  isComplex : Bool
  mul : Complex R → Complex R → Complex R
  div : Complex R → Complex R → Complex R
  pow : Complex R → Complex R → Complex R
  root : Complex R → R → Complex R
  function : R → Function → Complex R → Complex R

namespace Kernel

variable {R : Type} [Scalar R]

/-- The number is an odd integer. -/
def isOdd (n : R) : Bool :=
  Scalar.remainder n 2.0 == 1

/-- A root of a real number; odd roots of negative numbers are negative. -/
def realRoot (x n : R) : R :=
  if x < 0 && isOdd n then -Scalar.pow (-x) (1 / n) else Scalar.pow x (1 / n)

/-- The sign of a number as minus one, zero or one. -/
def sign (x : R) : R :=
  if x == 0 then 0 else Scalar.signum x

/-- A function of a real number. -/
def realFunction (draw : R) (f : Function) (x : R) : R :=
  match f with
  | .sin => Scalar.sin x
  | .cos => Scalar.cos x
  | .tan => Scalar.tan x
  | .csc => 1 / Scalar.sin x
  | .sec => 1 / Scalar.cos x
  | .cot => 1 / Scalar.tan x
  | .asin => Scalar.asin x
  | .acos => Scalar.acos x
  | .atan => Scalar.atan x
  | .acsc => Scalar.asin (1 / x)
  | .asec => Scalar.acos (1 / x)
  | .acot => Scalar.atan (1 / x)
  | .sinh => Scalar.sinh x
  | .cosh => Scalar.cosh x
  | .tanh => Scalar.tanh x
  | .csch => 1 / Scalar.sinh x
  | .sech => 1 / Scalar.cosh x
  | .coth => 1 / Scalar.tanh x
  | .asinh => Scalar.asinh x
  | .acosh => Scalar.acosh x
  | .atanh => Scalar.atanh x
  | .acsch => Scalar.asinh (1 / x)
  | .asech => Scalar.acosh (1 / x)
  | .acoth => Scalar.atanh (1 / x)
  | .log => Scalar.log10 x
  | .ln => Scalar.ln x
  | .log2 => Scalar.log2 x
  | .exp => Scalar.exp x
  | .abs => Scalar.abs x
  | .sign => sign x
  | .sqr | .sqrt => Scalar.sqrt x
  | .cbrt => Scalar.cbrt x
  | .round => Scalar.round x
  | .floor => Scalar.floor x
  | .ceiling => Scalar.ceiling x
  | .trunc => Scalar.truncate x
  | .re => x
  | .im => 0
  | .phase => if x < 0 then Scalar.pi else 0
  | .random => x * draw
  | .factorial | .negate => -x

/-- The kernel of real mode. -/
def real : Kernel R where
  isComplex := false
  mul z w := .ofReal (z.re * w.re)
  div z w := .ofReal (z.re / w.re)
  pow z w := .ofReal (Scalar.pow z.re w.re)
  root z n := .ofReal (realRoot z.re n)
  function draw f z := .ofReal (realFunction draw f z.re)

/-- A power, real when base and exponent are and the power is. -/
def complexPow (z w : Complex R) : Complex R :=
  if z.isReal && w.isReal && (0 ≤ z.re || Scalar.isIntegral w.re) then
    .ofReal (Scalar.pow z.re w.re)
  else z.pow w

/-- A root; odd roots of negative real numbers are real. -/
def complexRoot (z : Complex R) (n : R) : Complex R :=
  if z.isReal && z.re < 0 && isOdd n then .ofReal (-Scalar.pow (-z.re) (1 / n))
  else z.powReal (1 / n)

/-- A function of a complex number. The imaginary part of a real number stays a positive
zero under negation, so the square root of a negative real number does not depend on how
its sign came about. -/
def complexFunction (draw : R) (f : Function) (z : Complex R) : Complex R :=
  match f with
  | .sin => z.sin
  | .cos => z.cos
  | .tan => z.tan
  | .csc => 1 / z.sin
  | .sec => 1 / z.cos
  | .cot => 1 / z.tan
  | .asin => z.asin
  | .acos => z.acos
  | .atan => z.atan
  | .acsc => (1 / z).asin
  | .asec => (1 / z).acos
  | .acot => (1 / z).atan
  | .sinh => z.sinh
  | .cosh => z.cosh
  | .tanh => z.tanh
  | .csch => 1 / z.sinh
  | .sech => 1 / z.cosh
  | .coth => 1 / z.tanh
  | .asinh => z.asinh
  | .acosh => z.acosh
  | .atanh => z.atanh
  | .acsch => (1 / z).asinh
  | .asech => (1 / z).acosh
  | .acoth => (1 / z).atanh
  | .log => z.ln.unscale (Scalar.ln 10.0)
  | .ln => z.ln
  | .log2 => z.ln.unscale (Scalar.ln 2.0)
  | .exp => z.exp
  | .abs => .ofReal z.norm
  | .sign => .ofReal (sign z.re)
  | .sqr | .sqrt => z.sqrt
  | .cbrt => complexRoot z 3.0
  | .round => z.map Scalar.round
  | .floor => z.map Scalar.floor
  | .ceiling => z.map Scalar.ceiling
  | .trunc => z.map Scalar.truncate
  | .re => .ofReal z.re
  | .im => .ofReal z.im
  | .phase => .ofReal z.arg
  | .random => z.scale draw
  | .factorial | .negate => -z + 0

/-- The kernel of complex mode. -/
def complex : Kernel R where
  isComplex := true
  mul z w := if z.isReal && w.isReal then .ofReal (z.re * w.re) else z * w
  div z w := if z.isReal && w.isReal then .ofReal (z.re / w.re) else z / w
  pow := complexPow
  root := complexRoot
  function := complexFunction

/-- The kernel of a mode. -/
def ofMode (isComplex : Bool) : Kernel R :=
  if isComplex then complex else real

end Kernel

end UnitCalc
