/-
# Operators and functions on quantities

A calculator applies operators and functions to quantities: the kernel gives the
number, the rules of units give the unit. Trigonometric functions read plain numbers in
the angle unit of the settings, and the inverse ones return them in it, on request with
the unit attached.

## Main definitions

* `Calculator.operator`, `function`, `binaryFunction` and `multiFunction`.
-/

import UnitCalc.Calculator.Integer
import UnitCalc.Calculator.Kernel
import UnitCalc.Quantity.Basic
import UnitCalc.Settings

namespace UnitCalc

/-- A kernel with the settings for angles and the number drawn for `random`. -/
structure Calculator (R : Type) where
  kernel : Kernel R
  angle : AngleUnit
  /-- Inverse trigonometric functions attach the angle unit to their results. -/
  returnAngles : Bool := false
  draw : R

namespace Calculator

variable {R E : Type} [Scalar R] [Exponent E] [Narrowing R E]

/-- One for true and zero for false. -/
def truth (b : Bool) : Quantity R E :=
  .real (if b then 1 else 0)

/-- The real part is not zero. -/
def holds (q : Quantity R E) : Bool :=
  q.re != 0

/-- The number of a quantity that must have no dimension. -/
def unitless (name : String) (q : Quantity R E) : Except CalcError (Complex R) :=
  match q.unit with
  | none => .ok q.num
  | some u =>
    if u.isDimensionless then .ok (q.num.scale u.factor)
    else .error (.unitsNotAccepted name u.text)

/-- The radians of an angle; a plain number is read in the unit of the settings. -/
def radians (c : Calculator R) (name : String) (q : Quantity R E) :
    Except CalcError (Complex R) :=
  match q.unit with
  | some u =>
    if u.isAngle then .ok (q.num.scale u.factor)
    else (unitless name q).map (·.scale c.angle.factor)
  | none => .ok (q.num.scale c.angle.factor)

/-- An angle in radians as a result in the unit of the settings. -/
def angleResult (c : Calculator R) (radians : Complex R) : Quantity R E :=
  { num := radians.unscale c.angle.factor,
    unit := if c.returnAngles then Catalogue.find? c.angle.symbol else none }

/-- Compares two numbers in one unit. -/
def compares (o : Operator) (x y : Complex R) : Bool :=
  match o with
  | .less => x.re < y.re
  | .greater => y.re < x.re
  | .lessOrEqual => x.re ≤ y.re
  | .greaterOrEqual => y.re ≤ x.re
  | .equal => x == y
  | _ => !(x == y)

/-- The operator applied to two quantities, before literals are told apart. -/
def operatorResult (c : Calculator R) (o : Operator) (a b : Quantity R E) :
    Except CalcError (Quantity R E) :=
  match o with
  | .power => do
    let unit ← a.powerUnit b
    return { num := c.kernel.pow a.num b.collapsed.num, unit }
  | .divide | .intDivide =>
    let (k, unit) := a.quotientUnit b
    let q := (c.kernel.div a.num b.num).scale k
    .ok { num := if o = .intDivide then q.map Scalar.truncate else q, unit }
  | .modulo => do
    let (k, unit) ← a.sumUnit b o.symbol
    return { num := .ofReal (Scalar.remainder a.num.re (b.num.re * k)), unit }
  | .multiply =>
    let (k, unit) := a.productUnit b
    .ok { num := (c.kernel.mul a.num b.num).scale k, unit }
  | .subtract => do
    let (k, unit) ← a.sumUnit b o.symbol
    return { num := a.num - b.num.scale k, unit }
  | .add => do
    let (k, unit) ← a.sumUnit b o.symbol
    return { num := a.num + b.num.scale k, unit }
  | .less | .greater | .lessOrEqual | .greaterOrEqual | .equal | .notEqual => do
    let (k, _) ← a.sumUnit b o.symbol
    return truth (compares o a.num (b.num.scale k))
  | .and => .ok (truth (holds a && holds b))
  | .or => .ok (truth (holds a || holds b))
  | .exclusiveOr => .ok (truth (holds a != holds b))
  | .assign => .ok b

/-- A result of literals alone counts as a literal. -/
def staysLiteral (o : Operator) (a b : Quantity R E) : Bool :=
  match o with
  | .multiply | .divide => a.isLiteral && b.isLiteral
  | .power => a.isLiteral
  | _ => false

/-- Applies an operator to two quantities. -/
def operator (c : Calculator R) (o : Operator) (a b : Quantity R E) :
    Except CalcError (Quantity R E) :=
  (c.operatorResult o a b).map fun q => { q with isLiteral := staysLiteral o a b }

/-- The reciprocal of a root index as an exponent. -/
def reciprocal (n : R) : E :=
  1 / Narrowing.narrow n

/-- The largest number whose factorial is finite. -/
def maxFactorial : R := 170.0

/-- The product of the integers from two to `n`. -/
def factorialOf (n : Nat) : R :=
  (List.range' 2 (n - 1)).foldl (fun x (k : Nat) => x * Scalar.ofInt k) 1

/-- The factorial of a plain natural number. -/
def factorial (q : Quantity R E) : Except CalcError (Quantity R E) :=
  if q.unit.isSome then .error .factorialNotUnitless
  else if !q.isReal then .error .factorialNotNatural
  else if q.re < 0 || !Scalar.isIntegral q.re then .error .factorialNotNatural
  else if maxFactorial < q.re then .error .factorialTooLarge
  else .ok (.real (factorialOf (Scalar.toInt q.re).toNat))

/-- Applies a function of one argument. -/
def function (c : Calculator R) (f : Function) (a : Quantity R E) :
    Except CalcError (Quantity R E) :=
  let apply := c.kernel.function c.draw f
  match f with
  | .sin | .cos | .tan | .csc | .sec | .cot => do
    return { num := apply (← c.radians f.name a) }
  | .asin | .acos | .atan | .acsc | .asec | .acot => do
    return c.angleResult (apply (← unitless f.name a))
  | .sinh | .cosh | .tanh | .csch | .sech | .coth
  | .asinh | .acosh | .atanh | .acsch | .asech | .acoth
  | .log | .ln | .log2 | .exp => do
    return { num := apply (← unitless f.name a) }
  | .sign => .ok { num := apply a.num }
  | .sqr | .sqrt => .ok { num := apply a.num, unit := a.unit.map (·.pow (reciprocal (R := R) 2.0)) }
  | .cbrt => .ok { num := apply a.num, unit := a.unit.map (·.pow (reciprocal (R := R) 3.0)) }
  | .phase => .ok (c.angleResult (apply a.num))
  | .factorial => factorial a
  | .abs | .round | .floor | .ceiling | .trunc | .re | .im | .random | .negate =>
    .ok { num := apply a.num, unit := a.unit }

/-- Applies a function of two arguments. -/
def binaryFunction (c : Calculator R) (f : BinaryFunction) (a b : Quantity R E) :
    Except CalcError (Quantity R E) :=
  match f with
  | .atan2 => do
    let (k, _) ← a.sumUnit b ';'
    return c.angleResult (.ofReal (Scalar.atan2 (b.num.re * k) a.num.re))
  | .root =>
    if b.unit.isSome then .error .rootIndexNotUnitless
    else
      let n := b.re
      if !b.isReal || n < 2.0 || !Scalar.isIntegral n then .error .rootIndexNotInteger
      else .ok { num := c.kernel.root a.num n, unit := a.unit.map (·.pow (reciprocal n)) }

/-- The numbers of all arguments in the unit of the first. -/
def aligned (first : Quantity R E) (args : List (Quantity R E)) :
    Except CalcError (List (Complex R)) :=
  args.mapM fun q => do
    let (k, _) ← first.sumUnit q ';'
    return q.num.scale k

/-- The number with the smallest real part, the first of equal ones. -/
def smallest (first : Complex R) (rest : List (Complex R)) : Complex R :=
  rest.foldl (fun m x => if m.re ≤ x.re then m else x) first

/-- The number with the largest real part, the last of equal ones. -/
def largest (first : Complex R) (rest : List (Complex R)) : Complex R :=
  rest.foldl (fun m x => if m.re ≤ x.re then x else m) first

/-- The end of the 64 bit integer range. -/
def integerLimit : R := 9223372036854775808.0

/-- The magnitudes of integer arguments in the 64 bit range. -/
def magnitudes (name : String) (args : List (Quantity R E)) : Except CalcError (List Nat) :=
  args.mapM fun q => do
    let x := (← unitless name q).re
    if !Scalar.isIntegral x then throw .notIntegers
    if !(-integerLimit ≤ x && x < integerLimit) then throw (.argumentOutOfRange name)
    return (Scalar.toInt x).natAbs

/-- The value behind the first condition that holds, or the last argument when it stands
alone. -/
def switch (name : String) : List (Quantity R E) → Except CalcError (Quantity R E)
  | condition :: value :: rest => do
    let c ← unitless name condition
    if c.re != 0 then return value else switch name rest
  | [otherwise] => .ok otherwise
  | [] => .ok .undefined

/-- The product of all arguments from left to right. -/
def product (c : Calculator R) (first : Quantity R E) (rest : List (Quantity R E)) :
    Except CalcError (Quantity R E) :=
  rest.foldlM (c.operator .multiply) first

/-- Applies a function of many arguments. -/
def multiFunction (c : Calculator R) (f : MultiFunction) (args : List (Quantity R E)) :
    Except CalcError (Quantity R E) :=
  match args with
  | [] => .error .argumentCount
  | first :: rest =>
    let count : R := Scalar.ofInt args.length
    match f with
    | .min => do
      let nums ← aligned first args
      return { num := smallest (nums.headD 0) nums.tail, unit := first.unit }
    | .max => do
      let nums ← aligned first args
      return { num := largest (nums.headD 0) nums.tail, unit := first.unit }
    | .sum => do
      return { num := Complex.sum (← aligned first args), unit := first.unit }
    | .average => do
      return { num := (Complex.sum (← aligned first args)).unscale count, unit := first.unit }
    | .sumsq => do
      let squares := (← aligned first args).map fun x => c.kernel.mul x x
      return { num := Complex.sum squares, unit := first.unit.map (·.pow (1 + 1)) }
    | .srss => do
      let squares := (← aligned first args).map fun x => c.kernel.mul x x
      return { num := c.kernel.pow (Complex.sum squares) (.ofReal 0.5), unit := first.unit }
    | .product => c.product first rest
    | .mean => do
      let p ← c.product first rest
      return { num := c.kernel.root p.num count, unit := p.unit.map (·.pow (reciprocal count)) }
    | .switch => switch f.name args
    | .and => .ok (truth (args.all holds))
    | .or => .ok (truth (args.any holds))
    | .xor => .ok (truth ((args.countP fun q => holds q) % 2 == 1))
    | .gcd => do
      return .real (Scalar.ofInt (Integers.gcd (← magnitudes f.name args)))
    | .lcm => do
      match Integers.lcmList? (← magnitudes f.name args) with
      | some m => return .real (Scalar.ofInt m)
      | none => return .real Scalar.infinity

end Calculator

end UnitCalc
