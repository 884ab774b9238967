/-
# Complex numbers

Complex arithmetic and the complex elementary functions over any scalar, by the
textbook formulas. Branch cuts follow the signs of zeros.
-/

import UnitCalc.Number.Scalar

namespace UnitCalc

/-- A complex number. -/
@[ext]
structure Complex (R : Type) where
  re : R
  im : R
deriving Repr

namespace Complex

variable {R : Type} [Scalar R]

instance : BEq (Complex R) := ⟨fun z w => z.re == w.re && z.im == w.im⟩

/-- A real number. -/
def ofReal (x : R) : Complex R :=
  ⟨x, 0⟩

instance : Zero (Complex R) := ⟨⟨0, 0⟩⟩

instance : One (Complex R) := ⟨⟨1, 0⟩⟩

instance : Add (Complex R) := ⟨fun z w => ⟨z.re + w.re, z.im + w.im⟩⟩

instance : Sub (Complex R) := ⟨fun z w => ⟨z.re - w.re, z.im - w.im⟩⟩

instance : Neg (Complex R) := ⟨fun z => ⟨-z.re, -z.im⟩⟩

instance : Mul (Complex R) :=
  ⟨fun z w => ⟨z.re * w.re - z.im * w.im, z.re * w.im + z.im * w.re⟩⟩

instance : Div (Complex R) where
  div z w :=
    let n := w.re * w.re + w.im * w.im
    ⟨(z.re * w.re + z.im * w.im) / n, (z.im * w.re - z.re * w.im) / n⟩

/-- Both components multiplied by a real number. -/
def scale (z : Complex R) (k : R) : Complex R :=
  ⟨z.re * k, z.im * k⟩

/-- Both components divided by a real number. -/
def unscale (z : Complex R) (k : R) : Complex R :=
  ⟨z.re / k, z.im / k⟩

/-- Applies a function to both components. -/
def map (f : R → R) (z : Complex R) : Complex R :=
  ⟨f z.re, f z.im⟩

/-- The imaginary unit. -/
def i : Complex R :=
  ⟨0, 1⟩

/-- Twice the one. -/
def two : Complex R :=
  ⟨2.0, 0⟩

/-- The imaginary part is zero. -/
def isReal (z : Complex R) : Bool :=
  z.im == 0

/-- One of the components is undefined. -/
def isNaN (z : Complex R) : Bool :=
  Scalar.isNaN z.re || Scalar.isNaN z.im

/-- One of the components is infinite. -/
def isInfinite (z : Complex R) : Bool :=
  Scalar.isInfinite z.re || Scalar.isInfinite z.im

/-- The distance from zero. -/
def norm (z : Complex R) : R :=
  Scalar.hypot z.re z.im

/-- The angle from the positive real axis. -/
def arg (z : Complex R) : R :=
  Scalar.atan2 z.im z.re

/-- The number at a distance and an angle. -/
def ofPolar (r t : R) : Complex R :=
  ⟨r * Scalar.cos t, r * Scalar.sin t⟩

/-- The sum from left to right, starting from zero. -/
def sum (zs : List (Complex R)) : Complex R :=
  zs.foldl (· + ·) 0

/-- The principal logarithm. -/
def ln (z : Complex R) : Complex R :=
  ⟨Scalar.ln z.norm, z.arg⟩

/-- The exponential. Its value at an infinite real part does not depend on an
undefined angle. -/
def exp (z : Complex R) : Complex R :=
  if Scalar.isInfinite z.re then
    if z.re < 0 then
      if !Scalar.isFinite z.im then 0 else ofPolar (Scalar.exp z.re) z.im
    else if z.im == 0 || !Scalar.isFinite z.im then
      ⟨z.re, if Scalar.isInfinite z.im then Scalar.nan else z.im⟩
    else ofPolar (Scalar.exp z.re) z.im
  else if Scalar.isNaN z.re && z.im == 0 then z
  else ofPolar (Scalar.exp z.re) z.im

/-- A real power. -/
def powReal (z : Complex R) (x : R) : Complex R :=
  if x == 0 then 1 else ofPolar (Scalar.pow z.norm x) (z.arg * x)

/-- A complex power. -/
def pow (z w : Complex R) : Complex R :=
  if w == 0 then 1 else (w * z.ln).exp

/-- The principal square root. On the axes it is exact. -/
def sqrt (z : Complex R) : Complex R :=
  if z.im == 0 then
    if Scalar.isNegative z.re then
      let y := Scalar.sqrt (-z.re)
      ⟨0, if Scalar.isNegative z.im then -y else y⟩
    else ⟨Scalar.sqrt z.re, z.im⟩
  else if z.re == 0 then
    let x := Scalar.sqrt (Scalar.abs z.im / 2.0)
    ⟨x, if Scalar.isNegative z.im then -x else x⟩
  else ofPolar (Scalar.sqrt z.norm) (z.arg / 2.0)

/-- The sine. -/
def sin (z : Complex R) : Complex R :=
  ⟨Scalar.sin z.re * Scalar.cosh z.im, Scalar.cos z.re * Scalar.sinh z.im⟩

/-- The cosine. -/
def cos (z : Complex R) : Complex R :=
  ⟨Scalar.cos z.re * Scalar.cosh z.im, -Scalar.sin z.re * Scalar.sinh z.im⟩

/-- The tangent. -/
def tan (z : Complex R) : Complex R :=
  let a := z.re + z.re
  let b := z.im + z.im
  unscale ⟨Scalar.sin a, Scalar.sinh b⟩ (Scalar.cos a + Scalar.cosh b)

/-- The hyperbolic sine. -/
def sinh (z : Complex R) : Complex R :=
  ⟨Scalar.sinh z.re * Scalar.cos z.im, Scalar.cosh z.re * Scalar.sin z.im⟩

/-- The hyperbolic cosine. -/
def cosh (z : Complex R) : Complex R :=
  ⟨Scalar.cosh z.re * Scalar.cos z.im, Scalar.sinh z.re * Scalar.sin z.im⟩

/-- The hyperbolic tangent. -/
def tanh (z : Complex R) : Complex R :=
  let a := z.re + z.re
  let b := z.im + z.im
  unscale ⟨Scalar.sinh a, Scalar.sin b⟩ (Scalar.cosh a + Scalar.cos b)

/-- The inverse sine. -/
def asin (z : Complex R) : Complex R :=
  -i * ((1 - z * z).sqrt + i * z).ln

/-- The inverse cosine. -/
def acos (z : Complex R) : Complex R :=
  -i * (i * (1 - z * z).sqrt + z).ln

/-- The inverse tangent, infinite at plus and minus the imaginary unit. -/
def atan (z : Complex R) : Complex R :=
  if z == i then ⟨0, Scalar.infinity⟩
  else if z == -i then ⟨0, -Scalar.infinity⟩
  else ((1 + i * z).ln - (1 - i * z).ln) / (two * i)

/-- The inverse hyperbolic sine. -/
def asinh (z : Complex R) : Complex R :=
  (z + (1 + z * z).sqrt).ln

/-- The inverse hyperbolic cosine. -/
def acosh (z : Complex R) : Complex R :=
  two * (((z + 1) / two).sqrt + ((z - 1) / two).sqrt).ln

/-- The inverse hyperbolic tangent, infinite at plus and minus one. -/
def atanh (z : Complex R) : Complex R :=
  if z == 1 then ⟨Scalar.infinity, 0⟩
  else if z == -1 then ⟨-Scalar.infinity, 0⟩
  else ((1 + z).ln - (1 - z).ln) / two

end Complex

end UnitCalc
