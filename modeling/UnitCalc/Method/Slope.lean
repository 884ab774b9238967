/-
# Slopes by extrapolation

The derivative at a point is the symmetric difference quotient, extrapolated to a step of
zero from steps that are halved again and again.
-/

import UnitCalc.Method.Basic

namespace UnitCalc

variable {R E : Type} [Scalar R]

namespace Extrapolation

/-- The new row of the table behind its first entry: every entry of the old row, the newest
first, is replaced by its extrapolation from the one before. `weight` grows by four. -/
def refine (weight newest : R) : List R → List R
  | [] => []
  | old :: rest =>
    let weight := weight * 4.0
    let value := newest + (newest - old) / (weight - 1)
    value :: refine weight value rest

/-- The new row of the table for a new difference quotient. -/
def nextRow (quotient : R) (row : List R) : List R :=
  quotient :: refine 1 quotient row

/-- The best estimate of a row. -/
def best (row : List R) : R :=
  row.getLastD 0

end Extrapolation

namespace Problem

variable {m : Type → Type} [Monad m] [MonadExceptOf CalcError m]

/-- The number of steps that are tried. -/
def maxSlopeLevels : Nat := 7

/-- The change of an estimate, relative to the new one when that is large enough. -/
def slopeError (tolerance old new : R) : R :=
  if Scalar.abs new ≤ tolerance then Scalar.abs (new - old)
  else Scalar.abs ((new - old) / new)

/-- Adds rows for halved steps until the estimate settles. The result is the estimate with
its error; `error` is that of `row`. -/
def slopeFrom (p : Problem R E m) (x tolerance : R) (levels : Nat) (step : R) (row : List R)
    (error : R) : MethodM R E m (R × R) :=
  match levels with
  | 0 => return (Extrapolation.best row, error)
  | levels + 1 => do
    let width := 2.0 * step
    let below := x - step
    let above := below + width
    let upperValue ← p.value above
    let lowerValue ← p.value below
    let next := Extrapolation.nextRow ((upperValue - lowerValue) / width) row
    if row.isEmpty then slopeFrom p x tolerance levels (width / 2.0 / 2.0) next error
    else
      let error := slopeError tolerance (Extrapolation.best row) (Extrapolation.best next)
      if error < tolerance then return (Extrapolation.best next, error)
      else slopeFrom p x tolerance levels (width / 2.0 / 2.0) next error

/-- The first step: a multiple of the cube root of the distance between numbers. -/
def slopeStep (x : R) : R :=
  Scalar.powInt 2.0 maxSlopeLevels *
    Scalar.cbrt (Scalar.spacing (if Scalar.abs x < 1 then 1 else x))

/-- The derivative at a point, starting with a step; undefined when it does not settle. -/
def slopeWith (p : Problem R E m) (step x : R) : MethodM R E m R := do
  let tolerance := Scalar.least (Scalar.sqrt p.precision) 1e-3
  let limit := Scalar.greatest (50.0 * p.precision) 1e-3
  let (slope, error) ← p.slopeFrom x tolerance maxSlopeLevels step [] (tolerance / 2.0)
  return if limit < error then Scalar.nan else slope

variable [Exponent E] [Narrowing R E]

/-- Gives a slope the quotient of the units of the objective and the variable. -/
def withSlopeUnit (p : Problem R E m) (slope : R) : MethodM R E m R := do
  match p.unit, ← get with
  | none, _ => return slope
  | some u, none =>
    set (some u.inverse)
    return slope
  | some u, some v =>
    let (k, quotient) := v.divide? u
    set quotient
    return slope * k

/-- The derivative of the objective at a point. -/
def slope (p : Problem R E m) (x : R) : MethodM R E m R := do
  p.withSlopeUnit (← p.slopeWith (slopeStep x) x)

end Problem

end UnitCalc
