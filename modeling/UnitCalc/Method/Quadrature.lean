/-
# Quadrature

Areas are computed by an adaptive seven point rule whose error is estimated by the four
point rule nested in it. Integrals are computed by the double exponential rule, which
copes with singular ends. The unit of the answer is the unit of the objective times that
of the variable.

## Main definitions

* `Problem.lobatto` is the adaptive rule, and `Problem.area` the area.
* `Problem.tanhSinh` is the double exponential rule on a table of nodes, and
  `Problem.integral` the integral.
-/

import UnitCalc.Method.Basic

namespace UnitCalc

/-- A node of the double exponential rule: its distance from an end of the interval, for
half the length of the interval being one, and its weight. -/
structure QuadratureNode (R : Type) where
  distance : R
  weight : R

variable {R E : Type} [Scalar R]

namespace TanhSinh

/-- The number of nodes of each level. -/
def counts : List Nat :=
  [6, 7, 13, 26, 53, 106, 212, 423, 846, 1693, 3385]

/-- The nodes of a level from the parameter `t` on, which grows by `ratio`. -/
def nodes (ratio : R) : Nat → R → List (QuadratureNode R)
  | 0, _ => []
  | n + 1, t =>
    let u := Scalar.exp (1 / t - t)
    let d := 2.0 * u / (1 + u)
    ⟨d, (1 / t + t) * d / (1 + u)⟩ :: nodes ratio n (t * ratio)

/-- The levels of the rule for the remaining counts; the step was `h` on the level before.
Levels after the first one leave out the nodes they share with those before. -/
def levels (h : R) (isFirst : Bool) : List Nat → List (List (QuadratureNode R))
  | [] => []
  | n :: rest =>
    let h := h / 2.0
    let t := Scalar.exp h
    nodes (if isFirst then t else t * t) n t :: levels h false rest

/-- The nodes of all levels. -/
def table : List (List (QuadratureNode R)) :=
  levels 2.0 true counts

end TanhSinh

namespace Problem

variable {m : Type → Type} [Monad m] [MonadExceptOf CalcError m]

/-- The inner points of the seven point rule with the values there. -/
structure LobattoNodes (R : Type) where
  points : List R
  values : List R
  seven : R
  four : R

/-- Evaluates the objective at the inner points of an interval, whose values at the ends are
known, and computes both rules. -/
def lobattoNodes (p : Problem R E m) (x1 x3 y1 y3 : R) : MethodM R E m (LobattoNodes R) := do
  let alpha := Scalar.sqrt (2.0 / 3.0)
  let beta := Scalar.sqrt (1 / 5.0)
  let h := (x3 - x1) / 2.0
  let x2 := (x1 + x3) / 2.0
  let x4 := x2 - alpha * h
  let x5 := x2 - beta * h
  let x6 := x2 + beta * h
  let x7 := x2 + alpha * h
  let y4 ← p.value x4
  let y5 ← p.value x5
  let y2 ← p.value x2
  let y6 ← p.value x6
  let y7 ← p.value x7
  let seven := h * (1 / 1470.0) *
    (77.0 * (y1 + y3) + 432.0 * (y4 + y7) + 625.0 * (y5 + y6) + 672.0 * y2)
  let four := h * (1 / 6.0) * (y1 + y3 + 5.0 * (y5 + y6))
  return ⟨[x1, x4, x5, x2, x6, x7, x3], [y1, y4, y5, y2, y6, y7, y3], seven, four⟩

/-- The sum of a rule over the parts that the inner points cut an interval into. -/
def sumParts (rule : R → R → R → R → MethodM R E m R) (n : LobattoNodes R) :
    MethodM R E m R := do
  match n.points, n.values with
  | [x1, x4, x5, x2, x6, x7, x3], [y1, y4, y5, y2, y6, y7, y3] =>
    let a ← rule x1 x4 y1 y4
    let b ← rule x4 x5 y4 y5
    let c ← rule x5 x2 y5 y2
    let d ← rule x2 x6 y2 y6
    let e ← rule x6 x7 y6 y7
    let f ← rule x7 x3 y7 y3
    return a + b + c + d + e + f
  | _, _ => return 0

/-- The rule on a part of the interval, which may be cut `depth` more times. -/
def lobattoPart (p : Problem R E m) (tolerance : R) (depth : Nat) (x1 x3 y1 y3 : R) :
    MethodM R E m R := do
  let n ← p.lobattoNodes x1 x3 y1 y3
  match depth with
  | 0 => return n.seven
  | depth + 1 =>
    if Scalar.abs (n.seven - n.four) < tolerance then return n.seven
    else sumParts (lobattoPart p tolerance depth) n

/-- The parts of an interval are cut at most this many times. -/
def maxCuts : Nat := 14

/-- The adaptive rule. The whole interval is always cut; a first result above one makes the
tolerance relative. -/
def lobatto (p : Problem R E m) (left right : R) : MethodM R E m R := do
  let tolerance := Scalar.clamp 1e-14 1e-4 p.precision / 2.0
  let y1 ← p.value left
  let y3 ← p.value right
  let n ← p.lobattoNodes left right y1 y3
  let size := Scalar.abs n.seven
  let tolerance :=
    if Scalar.isFinite n.seven && 1 < size then tolerance * size else tolerance
  sumParts (p.lobattoPart tolerance maxCuts) n

/-- The sum of a level: the running sum and the last values on both sides, which stand in
where the objective is singular. -/
structure LevelSum (R : Type) where
  sum : R
  lower : R
  upper : R

/-- Adds the nodes of a level until one does not matter any more. -/
def tanhSinhLevel (p : Problem R E m) (left right tolerance : R) :
    List (QuadratureNode R) → LevelSum R → MethodM R E m R
  | [], s => return s.sum
  | node :: rest, s => do
    let x := node.distance * ((right - left) / 2.0)
    let lower ← if left < left + x then pure ((← p.value? (left + x)).getD s.lower)
      else pure s.lower
    let upper ← if right - x < right then pure ((← p.value? (right - x)).getD s.upper)
      else pure s.upper
    let q := node.weight * (lower + upper)
    let sum := s.sum + q
    if Scalar.abs q ≤ tolerance * Scalar.abs sum then return sum
    else tanhSinhLevel p left right tolerance rest ⟨sum, lower, upper⟩

/-- The result of the double exponential rule: the sum, the difference that the last level
made, and the number of levels. -/
structure TanhSinhSum (R : Type) where
  sum : R
  change : R
  levels : Nat

/-- Adds levels until the sum settles. -/
def tanhSinhFrom (p : Problem R E m) (left right : R) (s : TanhSinhSum R) :
    List (List (QuadratureNode R)) → MethodM R E m (TanhSinhSum R)
  | [] => return s
  | level :: rest => do
    let tolerance := Scalar.clamp 1e-15 1e-8 (p.precision * 0.1)
    let part ← p.tanhSinhLevel left right tolerance level ⟨0, 0, 0⟩
    let sum := s.sum + part
    let change := Scalar.abs (2.0 * s.sum - sum)
    let s : TanhSinhSum R := ⟨sum, change, s.levels + 1⟩
    if change ≤ 10.0 * p.precision * Scalar.abs sum then return s
    else tanhSinhFrom p left right s rest

/-- The double exponential rule; undefined when the sum does not settle. -/
def tanhSinh (p : Problem R E m) (table : List (List (QuadratureNode R))) (left right : R) :
    MethodM R E m R := do
  let centre ← p.value ((left + right) / 2.0)
  let s ← p.tanhSinhFrom left right ⟨centre, 0, 0⟩ table
  let size := Scalar.abs s.sum
  let change := if 1 < size then s.change / size else s.change
  if 10.0 * (10.0 * p.precision) < change then return Scalar.nan
  else return (right - left) / 2.0 * s.sum * Scalar.powInt 2.0 (1 - s.levels)

variable [Exponent E] [Narrowing R E]

/-- Gives an area the product of the units of the objective and the variable. -/
def withAreaUnit (p : Problem R E m) (area : R) : MethodM R E m R := do
  match p.unit, ← get with
  | none, _ => return area
  | some u, none =>
    set (some u)
    return area
  | some u, some v =>
    let (k, product) := v.multiply? u
    set product
    return area * k

/-- The signed integral of the objective from one point to another by a rule for ascending
intervals. On an interval without length the rule of the middle is used. -/
def signedIntegral (p : Problem R E m) (rule : R → R → MethodM R E m R) (start stop : R) :
    MethodM R E m R := do
  let (left, right, sign) : R × R × R :=
    if stop < start then (stop, start, -1) else (start, stop, 1)
  let size ← if right - left ≤ 1e-14 * (Scalar.abs left + Scalar.abs right) then
      pure ((right - left) * (← p.value ((left + right) / 2.0)))
    else rule left right
  p.withAreaUnit (size * sign)

/-- The integral by the adaptive rule. -/
def area (p : Problem R E m) (start stop : R) : MethodM R E m R :=
  p.signedIntegral p.lobatto start stop

/-- The integral by the double exponential rule. -/
def integral (p : Problem R E m) (table : List (List (QuadratureNode R))) (start stop : R) :
    MethodM R E m R :=
  p.signedIntegral (p.tanhSinh table) start stop

end Problem

end UnitCalc
