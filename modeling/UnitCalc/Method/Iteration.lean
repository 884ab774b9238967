/-
# Iteration over integers

An objective is evaluated at the integers between two rounded bounds, in increasing order,
and its values are kept, added or multiplied. Sums are compensated for rounding and taken
in the unit of the first term. Iteration stops early at an infinite result.

## Main definitions

* `Problem.integerBounds` rounds and limits the bounds.
* `Problem.iterate`, `sum`, `product` work on real values, and `complexIterate`,
  `complexSum`, `complexProduct` on complex ones.
-/

import UnitCalc.Method.Basic

namespace UnitCalc

variable {R E : Type} {m : Type → Type} [Scalar R] [Monad m] [MonadExceptOf CalcError m]

namespace Problem

/-- Bounds may not be farther from zero. -/
def iterationLimit : R := 1e8

/-- The bounds of an iteration, rounded half away from zero. -/
def integerBounds (start stop : R) : MethodM R E m (Int × Int) :=
  if iterationLimit < Scalar.abs start || iterationLimit < Scalar.abs stop then
    throw (CalcError.iterationLimits (Scalar.text (-iterationLimit : R))
      (Scalar.text (iterationLimit : R)))
  else return (Scalar.toInt (Scalar.round start), Scalar.toInt (Scalar.round stop))

/-- The number of integers from one to another. -/
def span (first last : Int) : Nat :=
  (last + 1 - first).toNat

/-- Repeats a step for `count` integers from `k` on, until a result says to stop. -/
def repeatFrom {S : Type} (step : S → R → MethodM R E m S) (stop : S → Bool) :
    Nat → Int → S → MethodM R E m S
  | 0, _, s => return s
  | count + 1, k, s => do
    let s ← step s (Scalar.ofInt k)
    if stop s then return s else repeatFrom step stop count (k + 1) s

/-- The last value of the objective; undefined on an empty range. -/
def iterate (p : Problem R E m) (start stop : R) : MethodM R E m (Quantity R E) := do
  let (first, last) ← integerBounds start stop
  repeatFrom (fun _ x => p.quantity x) (fun q => Scalar.isInfinite q.re)
    (span first last) first .undefined

/-- The last complex value of the objective; zero on an empty range. -/
def complexIterate (p : Problem R E m) (start stop : R) : MethodM R E m (Complex R) := do
  let (first, last) ← integerBounds start stop
  repeatFrom (fun _ x => p.complexValue x) Complex.isInfinite (span first last) first 0

/-- A sum with the part that rounding lost. -/
structure CompensatedSum (A : Type) where
  sum : A
  lost : A

/-- Adds a term and keeps what the addition loses. -/
def CompensatedSum.add {A : Type} [Add A] [Sub A] (s : CompensatedSum A) (term : A) :
    CompensatedSum A :=
  let y := term - s.lost
  let t := s.sum + y
  ⟨t, (t - s.sum) - y⟩

/-- The factor that takes the last value into the unit of the first term. -/
def termFactor [Exponent E] (unit : Option (MeasureUnit R E)) : MethodM R E m R := do
  match unit, ← get with
  | none, none => return 1
  | some u, some v =>
    if u.sharesDimension v then return v.factorTo u
    else throw (CalcError.inconsistentTerms u.text v.text)
  | u, v => throw (CalcError.inconsistentTerms (unitText u) (unitText v))

/-- The sum of the values of the objective in the unit of the first one. -/
def sum [Exponent E] (p : Problem R E m) (start stop : R) : MethodM R E m R := do
  let (first, last) ← integerBounds start stop
  let term ← p.value (Scalar.ofInt first)
  let unit ← get
  let step (s : CompensatedSum R) (x : R) : MethodM R E m (CompensatedSum R) := do
    let y ← p.value x
    return s.add (y * (← termFactor unit))
  let s ← repeatFrom step (fun s => Scalar.isInfinite s.sum) (span (first + 1) last) (first + 1)
    ⟨term, 0⟩
  set unit
  return s.sum

/-- The sum of the complex values of the objective in the unit of the first one. -/
def complexSum [Exponent E] (p : Problem R E m) (start stop : R) : MethodM R E m (Complex R) := do
  let (first, last) ← integerBounds start stop
  let term ← p.complexValue (Scalar.ofInt first)
  let unit ← get
  let step (s : CompensatedSum (Complex R)) (x : R) :
      MethodM R E m (CompensatedSum (Complex R)) := do
    let y ← p.complexValue x
    return s.add (y.scale (← termFactor unit))
  let s ← repeatFrom step (fun s => s.sum.isInfinite) (span (first + 1) last) (first + 1)
    ⟨term, 0⟩
  set unit
  return s.sum

/-- A product with its unit. -/
structure UnitProduct (A R E : Type) where
  product : A
  unit : Option (MeasureUnit R E)

variable [Exponent E] [Narrowing R E]

/-- Multiplies the unit of a product by that of the last value, if both have one. The factor
goes with the new unit. -/
def productFactor (tracksUnits : Bool) (unit : Option (MeasureUnit R E)) :
    MethodM R E m (R × Option (MeasureUnit R E)) := do
  match tracksUnits, unit, ← get with
  | true, some u, some v => return u.multiply? v
  | _, _, _ => return (1, unit)

/-- The product of the values of the objective. -/
def product (p : Problem R E m) (start stop : R) : MethodM R E m R := do
  let (first, last) ← integerBounds start stop
  let term ← p.value (Scalar.ofInt first)
  let unit ← get
  let step (s : UnitProduct R R E) (x : R) : MethodM R E m (UnitProduct R R E) := do
    let y ← p.value x
    let (k, u) ← productFactor unit.isSome s.unit
    return ⟨s.product * y * k, u⟩
  let s ← repeatFrom step (fun s => Scalar.isInfinite s.product) (span (first + 1) last)
    (first + 1) ⟨term, unit⟩
  set s.unit
  return s.product

/-- The product of the complex values of the objective. -/
def complexProduct (p : Problem R E m) (start stop : R) : MethodM R E m (Complex R) := do
  let (first, last) ← integerBounds start stop
  let term ← p.complexValue (Scalar.ofInt first)
  let unit ← get
  let step (s : UnitProduct (Complex R) R E) (x : R) :
      MethodM R E m (UnitProduct (Complex R) R E) := do
    let y ← p.complexValue x
    let (k, u) ← productFactor unit.isSome s.unit
    return ⟨(s.product * y).scale k, u⟩
  let s ← repeatFrom step (fun s => s.product.isInfinite) (span (first + 1) last)
    (first + 1) ⟨term, unit⟩
  set s.unit
  return s.product

end Problem

end UnitCalc
