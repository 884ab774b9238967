/-
# Quantities

A quantity is a number, possibly complex, with an optional unit. The rules of this
file say which unit a sum, a product, a quotient or a power of quantities has, and
by which factor the plain result of the numbers is multiplied.

## Main definitions

* `Quantity` with `collapsed`, which folds a percent into the number, and `si`.
* `Quantity.sumUnit`, `productUnit`, `quotientUnit`, `powerUnit`.
-/

import UnitCalc.Error
import UnitCalc.Measure.Catalogue
import UnitCalc.Number.Complex

namespace UnitCalc

/-- A number with an optional unit. `isLiteral` marks a quantity that came straight
from the symbol of a unit, such as `m` or `%`, or from products, quotients and powers
of such symbols. -/
structure Quantity (R E : Type) where
  num : Complex R
  unit : Option (MeasureUnit R E) := none
  isLiteral : Bool := false

namespace Quantity

variable {R E : Type} [Scalar R] [Exponent E]

/-- A plain real number. -/
def real (x : R) : Quantity R E :=
  { num := .ofReal x }

/-- The quantity of a failed or undefined computation. -/
def undefined : Quantity R E :=
  real Scalar.nan

instance : Inhabited (Quantity R E) := ⟨real 0⟩

/-- One of a unit, written by its symbol. -/
def literal (u : MeasureUnit R E) : Quantity R E :=
  { num := 1, unit := some u, isLiteral := true }

/-- The real part. -/
def re (q : Quantity R E) : R :=
  q.num.re

/-- The imaginary part. -/
def im (q : Quantity R E) : R :=
  q.num.im

/-- The imaginary part is zero. -/
def isReal (q : Quantity R E) : Bool :=
  q.num.isReal

/-- A component of the number is undefined. -/
def isNaN (q : Quantity R E) : Bool :=
  q.num.isNaN

/-- The text of the unit. -/
def unitText (q : Quantity R E) : String :=
  UnitCalc.unitText q.unit

/-- Drops a unit without dimension, such as a percent, and folds its factor into the
number. -/
def collapsed (q : Quantity R E) : Quantity R E :=
  match q.unit with
  | some u => if u.isDimensionless then { num := q.num.scale u.factor } else q
  | none => q

/-- The number in coherent units. -/
def si (q : Quantity R E) : Complex R :=
  match q.unit with
  | some u => q.num.scale u.factor
  | none => q.num

/-- The factor that brings the second operand of a sum, a difference or a comparison
to the unit of the first, and the unit of the result. -/
def sumUnit (a b : Quantity R E) (op : Char) : Except CalcError (R × Option (MeasureUnit R E)) :=
  match conversion a.unit b.unit op with
  | .ok k => .ok (k, a.unit)
  | .error e => .error (.units e)

variable [Narrowing R E]

/-- The quantity is counted in a dimensionless unit that is not a literal, so it acts
as the plain number it stands for. -/
def scaleOnly? (b : Quantity R E) : Option (MeasureUnit R E) :=
  b.unit.filter fun u => u.isDimensionless && !b.isLiteral

/-- The factor and the unit of a product. -/
def productUnit (a b : Quantity R E) : R × Option (MeasureUnit R E) :=
  match b.scaleOnly? with
  | some u => (u.factor, a.unit)
  | none => match a.unit, b.unit with
    | none, none => (1, none)
    | some u, none => (1, some u)
    | none, some u => (1, some u)
    | some u, some v => u.multiply? v

/-- The factor and the unit of a quotient. -/
def quotientUnit (a b : Quantity R E) : R × Option (MeasureUnit R E) :=
  match b.scaleOnly? with
  | some u => (1 / u.factor, a.unit)
  | none => match a.unit, b.unit with
    | none, none => (1, none)
    | some u, none => (1, some u)
    | none, some u => (1, some u.inverse)
    | some u, some v => u.divide? v

/-- The unit of a power. The exponent has to be a plain number, and real when the base
has a unit. -/
def powerUnit (a b : Quantity R E) : Except CalcError (Option (MeasureUnit R E)) :=
  if b.unit.any fun u => !u.isDimensionless then .error .powerNotUnitless
  else match a.unit with
    | none => .ok none
    | some u =>
      if !b.isReal then .error .complexPowerOfUnits
      else if b.re == 0 then .ok none
      else .ok (some (u.pow (Narrowing.narrow b.collapsed.re)))

end Quantity

end UnitCalc
