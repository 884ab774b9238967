/-
# Numerical methods

A block of a statement asks for one of ten numerical methods. Each works on an objective,
a function of one real variable whose values are quantities, and keeps track of the unit
of the last value, which becomes the unit of the answer.

## Main definitions

* `Method` lists the methods with their names.
* `Problem` is what a method works on, and `MethodM` the computation of a method.
* `Problem.value`, `value?`, `complexValue` and `quantity` evaluate the objective.
-/

import UnitCalc.Quantity.Basic

namespace UnitCalc

/-- The numerical methods of blocks. -/
inductive Method where
  | find
  | root
  | supremum
  | infimum
  | area
  | integral
  | slope
  | iterate
  | sum
  | product
deriving Repr, DecidableEq

namespace Method

/-- The methods with their keywords and the names they are shown by. -/
def table : List (Method × String × String) :=
  [(find, "find", "$Find"), (root, "root", "$Root"), (supremum, "sup", "$Sup"),
    (infimum, "inf", "$Inf"), (area, "area", "$Area"), (integral, "integral", "$Integral"),
    (slope, "slope", "$Slope"), (iterate, "repeat", "$Repeat"), (sum, "sum", "$Sum"),
    (product, "product", "$Product")]

/-- The method of a keyword, in any case. -/
def ofKeyword? (keyword : String) : Option Method :=
  (table.find? fun (_, k, _) => k == keyword.map Char.toLower).map Prod.fst

/-- The name a method is shown by. -/
def name (m : Method) : String :=
  ((table.lookup m).map Prod.snd).getD ""

/-- The sign a method is written with in front of its block. -/
def symbol : Method → String
  | area | integral => "∫"
  | sum => "∑"
  | product => "∏"
  | m => m.name

/-- The number of parts a block of the method has: the objective, the variable and one or
two bounds. -/
def partCount : Method → Nat
  | slope => 3
  | _ => 4

end Method

variable {R E : Type} {m : Type → Type}

/-- What a numerical method works on: the objective, whether its values may be complex, the
unit of the variable and the precision that is asked for. -/
structure Problem (R E : Type) (m : Type → Type) where
  objective : R → m (Quantity R E)
  isComplex : Bool
  unit : Option (MeasureUnit R E)
  precision : R

/-- The computation of a method. The state is the unit of the last value of the objective,
and in the end the unit of the answer. -/
abbrev MethodM (R E : Type) (m : Type → Type) :=
  StateT (Option (MeasureUnit R E)) m

namespace Problem

variable [Scalar R] [Monad m] [MonadExceptOf CalcError m]

/-- The value of the objective at a point. -/
def eval (p : Problem R E m) (x : R) : MethodM R E m (Quantity R E) := do
  let q ← p.objective x
  set q.unit
  return q

/-- The value at a point where it has to be real and finite. -/
def value (p : Problem R E m) (x : R) : MethodM R E m R := do
  let q ← p.eval x
  if p.isComplex && !q.isReal then throw (CalcError.cannotEvaluateAt (Scalar.text x))
  if !Scalar.isFinite q.re then throw (CalcError.notDefinedAt (Scalar.text x))
  return q.re

/-- The value at a point where it has to be real; nothing at a singular point. -/
def value? (p : Problem R E m) (x : R) : MethodM R E m (Option R) := do
  let q ← p.eval x
  if p.isComplex && !q.isReal then throw (CalcError.cannotEvaluateAt (Scalar.text x))
  return if Scalar.isFinite q.re then some q.re else none

/-- The complex value at a point where it has to be defined. -/
def complexValue (p : Problem R E m) (x : R) : MethodM R E m (Complex R) := do
  let q ← p.eval x
  if Scalar.isNaN q.re && Scalar.isNaN q.im then
    throw (CalcError.cannotEvaluateAt (Scalar.text x))
  return q.num

/-- The quantity at a point where its real part has to be finite. -/
def quantity (p : Problem R E m) (x : R) : MethodM R E m (Quantity R E) := do
  let q ← p.eval x
  if !Scalar.isFinite q.re then throw (CalcError.notDefinedAt (Scalar.text x))
  return q

end Problem

end UnitCalc
