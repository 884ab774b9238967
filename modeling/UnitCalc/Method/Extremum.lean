/-
# Extreme values by golden section

The interval is shortened by the golden ratio on the side of the worse of two inner
points, until it is short compared with the points, or both are level. The answer is the
value at an end that was never moved, or else in the middle of what is left.
-/

import UnitCalc.Method.Basic

namespace UnitCalc

/-- The state of a search: the ends of the interval and two inner points with their values. -/
structure Section (R : Type) where
  left : R
  right : R
  lower : R
  upper : R
  lowerValue : R
  upperValue : R

variable {R E : Type} {m : Type → Type} [Scalar R] [Monad m] [MonadExceptOf CalcError m]

namespace Problem

/-- The golden ratio less one. -/
def goldenRatio : R := 0.6180339887498948482

/-- No interval is searched further than this. -/
def shortestSection : R := 1e-30

/-- A search takes at most this many steps, more than an interval of double precision
numbers can be shortened. -/
def maxSections : Nat := 4096

/-- The steps of a search; `steps` are left. -/
def sectionFrom (p : Problem R E m) (isMinimum : Bool) (level : R) (steps : Nat) (limit : R)
    (s : Section R) : MethodM R E m (Section R) :=
  match steps with
  | 0 => return s
  | steps + 1 => do
    let width := s.right - s.left
    if !(limit < width) || (s.lowerValue == s.upperValue && width < level) then return s
    else if isMinimum == decide (s.lowerValue < s.upperValue) then
      let width := s.upper - s.left
      let lower := s.upper - goldenRatio * width
      let s := { s with
        right := s.upper, upper := s.lower, upperValue := s.lowerValue,
        lower, lowerValue := ← p.value lower }
      sectionFrom p isMinimum level steps (nextLimit p s) s
    else
      let width := s.right - s.lower
      let upper := s.lower + goldenRatio * width
      let s := { s with
        left := s.lower, lower := s.upper, lowerValue := s.upperValue,
        upper, upperValue := ← p.value upper }
      sectionFrom p isMinimum level steps (nextLimit p s) s
where
  /-- The width at which the search ends. -/
  nextLimit (p : Problem R E m) (s : Section R) : R :=
    Scalar.greatest (p.precision * (Scalar.abs s.lower + Scalar.abs s.upper)) shortestSection

/-- The least or the greatest value of the objective between two points. -/
def extremeValue (p : Problem R E m) (isMinimum : Bool) (start stop : R) : MethodM R E m R := do
  let width := stop - start
  let lower := stop - goldenRatio * width
  let upper := start + goldenRatio * width
  let lowerValue ← p.value lower
  let upperValue ← p.value upper
  let limit := p.precision * (Scalar.abs lower + Scalar.abs upper) / 2.0
  let s ← p.sectionFrom isMinimum (0.1 * width) maxSections limit
    { left := start, right := stop, lower, upper, lowerValue, upperValue }
  if s.left == start then p.value start
  else if s.right == stop then p.value stop
  else p.value ((s.left + s.right) / 2.0)

end Problem

end UnitCalc
