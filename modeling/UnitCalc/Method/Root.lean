/-
# Roots by bracketing

The interval is bisected until the objective looks linear in it; from then on false
position is used, with residuals scaled down on the side that stays. Bisection is resumed
at regular intervals.

## Main definitions

* `Problem.bracket` solves `f x = target` and returns the point with its residual.
* `Problem.find` is the zero that it finds, and `Problem.root` the solution, undefined when
  the residual stays too large.
-/

import UnitCalc.Method.Basic

namespace UnitCalc

/-- The side of an interval. -/
inductive Side where
  | left
  | right
deriving Repr, DecidableEq

/-- The state of a bracketing search: the ends of the interval with the residuals there, the
last point, the side that was replaced last, and whether the next step bisects. -/
structure Bracket (R : Type) where
  left : R
  right : R
  leftResidual : R
  rightResidual : R
  last : R
  replaced : Option Side := none
  bisecting : Bool := true

/-- The tolerances of a bracketing search: for the residual, for the step, and the number of
steps after which bisection is resumed. -/
structure Tolerance (R : Type) where
  residual : R
  step : R
  period : Int

variable {R E : Type} {m : Type → Type} [Scalar R]

namespace Bracket

/-- The residual left on the other side, scaled by what the new residual leaves of the old
one, or halved. -/
def damped (other new old : R) : R :=
  let factor := 1 - new / old
  if factor ≤ 0 then other / 2.0 else other * factor

/-- The objective looks linear when the residual in the middle is near the mean residual. -/
def looksLinear (b : Bracket R) (middle : R) : Bool :=
  let mean := (b.leftResidual + b.rightResidual) / 2.0
  Scalar.abs (mean - middle) < 0.25 * (Scalar.abs middle + Scalar.abs mean)

/-- The next point: the middle, or the zero of the secant. -/
def nextPoint (b : Bracket R) : R :=
  if b.bisecting then (b.left + b.right) / 2.0
  else (b.left * b.rightResidual - b.leftResidual * b.right) /
    (b.rightResidual - b.leftResidual)

/-- The point lies outside the interval by more than the tolerance of a step. -/
def isOutside (b : Bracket R) (t : Tolerance R) (x : R) : Bool :=
  x < b.left - t.step || b.right + t.step < x

/-- The interval that a new point with its residual leaves. -/
def narrow (b : Bracket R) (x residual : R) : Bracket R :=
  if Scalar.signum b.leftResidual == Scalar.signum residual then
    let other := if b.replaced = some .left then
      damped b.rightResidual residual b.leftResidual else b.rightResidual
    { b with
      left := x, leftResidual := residual, rightResidual := other, last := x,
      replaced := if b.replaced ≠ some .left && !b.bisecting then some .left else b.replaced }
  else
    let other := if b.replaced = some .right then
      damped b.leftResidual residual b.rightResidual else b.leftResidual
    { b with
      right := x, rightResidual := residual, leftResidual := other, last := x,
      replaced := if b.replaced ≠ some .right && !b.bisecting then some .right else b.replaced }

end Bracket

namespace Problem

variable [Monad m] [MonadExceptOf CalcError m]

/-- Ends a search with a point and its residual; the answer has the unit of the variable. -/
def found (p : Problem R E m) (x residual : R) : MethodM R E m (R × R) := do
  set p.unit
  return (x, residual)

/-- A search takes at most this many steps. -/
def maxBracketSteps : Nat := 100

/-- The steps of the search; `steps` are left, and `residual` is the last one. -/
def bracketFrom (p : Problem R E m) (target : R) (t : Tolerance R) (steps : Nat)
    (b : Bracket R) (residual : R) : MethodM R E m (R × R) :=
  match steps with
  | 0 => p.found b.last residual
  | steps + 1 => do
    let x := b.nextPoint
    if !b.bisecting && b.isOutside t x then
      p.found Scalar.nan 1
    else
      let y := (← p.value x) - target
      let b := if b.bisecting && b.looksLinear y then { b with bisecting := false } else b
      let residual := Scalar.abs y
      if residual < Scalar.abs t.residual || Scalar.abs (x - b.last) < t.step then
        p.found x residual
      else
        let b := b.narrow x y
        let taken : Int := (maxBracketSteps - steps : Nat)
        let b := if taken % t.period == 0 then { b with bisecting := true } else b
        bracketFrom p target t steps b residual

/-- The tolerances of a search between two points. -/
def tolerance (p : Problem R E m) (left right target : R) : Tolerance R :=
  let residual := p.precision / 4.0
  { residual := if 1 < Scalar.abs target then residual * target else residual,
    step := p.precision * (right - left) / 2.0,
    period := max (Scalar.toInt (-(Scalar.log2 p.precision / 2.0)) + 1) 1 }

/-- Solves `f x = target` between two points, and returns the solution with the magnitude of
the last residual. An end where the residual is within the precision is the solution. -/
def bracket (p : Problem R E m) (start stop target : R) : MethodM R E m (R × R) := do
  let left := Scalar.least start stop
  let right := Scalar.greatest start stop
  let leftResidual := (← p.value left) - target
  if Scalar.abs leftResidual ≤ p.precision then p.found left 0
  else
    let rightResidual := (← p.value right) - target
    if Scalar.abs rightResidual ≤ p.precision then p.found right 0
    else
      p.bracketFrom target (p.tolerance left right target) maxBracketSteps
        { left, right, leftResidual, rightResidual, last := left } 0

/-- A zero of the objective. -/
def find (p : Problem R E m) (start stop : R) : MethodM R E m R := do
  return (← p.bracket start stop 0).1

/-- A solution of `f x = target`, undefined when the residual stays too large. -/
def root (p : Problem R E m) (start stop target : R) : MethodM R E m R := do
  let (x, residual) ← p.bracket start stop target
  let limit := Scalar.sqrt p.precision
  let limit := if target != 0 then limit * Scalar.abs target else limit
  return if limit < residual then Scalar.nan else x

end Problem

end UnitCalc
