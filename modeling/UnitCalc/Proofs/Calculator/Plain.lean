/-
# Plain numbers

A quantity without a unit that does not stand for a unit is a plain number. Operators and
functions of plain numbers have plain numbers as results, except for the angles of inverse
trigonometric functions, which may have the angle unit. Plain numbers with the same key are
the same.

## Main definitions

* `Quantity.IsPlain`: a number without a unit.
* `Function.returnsAngle`, `BinaryFunction.returnsAngle`: the results are angles.
-/

import UnitCalc.Quantity.Target
import UnitCalc.Session.Basic

namespace UnitCalc

/-- A number without a unit. -/
structure Quantity.IsPlain (q : Value) : Prop where
  unit : q.unit = none
  isLiteral : q.isLiteral = false

/-- The results of the function are angles. -/
def Function.returnsAngle : Function → Bool
  | asin | acos | atan | acsc | asec | acot | phase => true
  | _ => false

/-- The results of the function are angles. -/
def BinaryFunction.returnsAngle : BinaryFunction → Bool
  | atan2 => true
  | root => false

/-- A key tells the number, bit by bit, and the text of the unit. -/
theorem ArgumentKey.ofValue_eq_iff {a b : Value} : ofValue a = ofValue b ↔
    a.num = b.num ∧ a.unit.map MeasureUnit.text = b.unit.map MeasureUnit.text := by
  have injective : ∀ {x y : Float}, x.toBits = y.toBits → x = y := by
    rintro ⟨⟨x, _⟩⟩ ⟨⟨y, _⟩⟩ bits
    cases (show x = y from bits)
    rfl
  obtain ⟨⟨re, im⟩, unit, isLiteral⟩ := a
  obtain ⟨⟨re', im'⟩, unit', isLiteral'⟩ := b
  simp only [ofValue, ArgumentKey.mk.injEq, Quantity.re, Quantity.im]
  constructor
  · rintro ⟨real, imaginary, text⟩
    exact ⟨by rw [injective real, injective imaginary], text⟩
  · rintro ⟨num, text⟩
    cases num
    exact ⟨rfl, rfl, text⟩

namespace Quantity.IsPlain

variable {a b q : Value}

theorem ofNumber (num : Complex Float) : ({ num } : Value).IsPlain :=
  ⟨rfl, rfl⟩

theorem undefined : (Quantity.undefined : Value).IsPlain :=
  ofNumber _

/-- A plain number is converted into no unit. -/
theorem applyTarget_none (plain : a.IsPlain) : a.applyTarget none = .ok a := by
  rw [applyTarget, routed, plain.unit]

theorem sumUnit (plain : a.IsPlain) (plain' : b.IsPlain) (op : Char) :
    a.sumUnit b op = .ok (1, none) := by
  simp only [Quantity.sumUnit, plain.unit, plain'.unit, conversion]
  rfl

theorem productUnit (plain : a.IsPlain) (plain' : b.IsPlain) :
    a.productUnit b = (1, none) := by
  simp only [Quantity.productUnit, scaleOnly?, plain.unit, plain'.unit, Option.filter_none]
  rfl

theorem quotientUnit (plain : a.IsPlain) (plain' : b.IsPlain) :
    a.quotientUnit b = (1, none) := by
  simp only [Quantity.quotientUnit, scaleOnly?, plain.unit, plain'.unit, Option.filter_none]
  rfl

theorem powerUnit (plain : a.IsPlain) (plain' : b.IsPlain) : a.powerUnit b = .ok none := by
  simp [Quantity.powerUnit, plain.unit, plain'.unit]

/-- A plain number is its key. -/
theorem eq_of_key (plain : a.IsPlain) (plain' : b.IsPlain)
    (same : ArgumentKey.ofValue a = ArgumentKey.ofValue b) : a = b := by
  have num := (ArgumentKey.ofValue_eq_iff.1 same).1
  obtain ⟨x, unit, isLiteral⟩ := a
  obtain ⟨y, unit', isLiteral'⟩ := b
  obtain ⟨rfl, rfl⟩ := plain
  obtain ⟨rfl, rfl⟩ := plain'
  rw [show x = y from num]

/-- Plain arguments are their keys. -/
theorem eq_of_keys {args args' : List Value} (plain : ∀ a ∈ args, a.IsPlain)
    (plain' : ∀ a ∈ args', a.IsPlain)
    (same : args.map ArgumentKey.ofValue = args'.map ArgumentKey.ofValue) : args = args' := by
  induction args generalizing args' with
  | nil => exact (List.map_eq_nil_iff.1 same.symm).symm
  | cons a args ih =>
    cases args' with
    | nil => cases same
    | cons b args' =>
      rw [List.forall_mem_cons] at plain plain'
      rw [List.map_cons, List.map_cons, List.cons.injEq] at same
      rw [plain.1.eq_of_key plain'.1 same.1, ih plain.2 plain'.2 same.2]

end Quantity.IsPlain

namespace Calculator

variable {c : Calculator Float} {a b q : Value}

/-- Operators of plain numbers have results without a unit. -/
theorem unit_operatorResult {o : Operator} (plain : a.IsPlain) (plain' : b.IsPlain)
    (applied : c.operatorResult o a b = .ok q) : q.unit = none := by
  cases o with
  | power =>
    rw [operatorResult, plain.powerUnit plain'] at applied
    cases applied
    rfl
  | divide | intDivide =>
    rw [operatorResult, plain.quotientUnit plain'] at applied
    cases applied
    rfl
  | multiply =>
    rw [operatorResult, plain.productUnit plain'] at applied
    cases applied
    rfl
  | modulo | subtract | add | less | greater | lessOrEqual | greaterOrEqual | equal | notEqual =>
    rw [operatorResult, plain.sumUnit plain'] at applied
    cases applied
    rfl
  | and | or | exclusiveOr =>
    cases applied
    rfl
  | assign =>
    cases applied
    exact plain'.unit

/-- Operators of plain numbers have plain results. -/
theorem isPlain_operator {o : Operator} (plain : a.IsPlain) (plain' : b.IsPlain)
    (applied : c.operator o a b = .ok q) : q.IsPlain := by
  have literal : staysLiteral o a b = false := by
    cases o <;> simp [staysLiteral, plain.isLiteral]
  cases result : c.operatorResult o a b with
  | error e =>
    rw [operator, result] at applied
    cases applied
  | ok r =>
    have unit := unit_operatorResult plain plain' result
    rw [operator, result] at applied
    cases applied
    exact ⟨unit, literal⟩

theorem unitless_plain (plain : a.IsPlain) (name : String) : unitless name a = .ok a.num := by
  rw [unitless, plain.unit]

theorem radians_plain (plain : a.IsPlain) (name : String) :
    c.radians name a = .ok (a.num.scale c.angle.factor) := by
  rw [radians, plain.unit]

/-- Functions of a plain number have plain results, other than angles. -/
theorem isPlain_function {f : Function} (noAngle : f.returnsAngle = false) (plain : a.IsPlain)
    (applied : c.function f a = .ok q) : q.IsPlain := by
  -- The functions are grouped by what they ask of the unit of their argument, which has none.
  cases f with
  | asin | acos | atan | acsc | asec | acot | phase => cases noAngle
  | factorial =>
    simp only [function, factorial] at applied
    repeat' split at applied
    all_goals cases applied
    exact .ofNumber _
  | sin | cos | tan | csc | sec | cot =>
    rw [function, radians_plain plain] at applied
    cases applied
    exact .ofNumber _
  | sinh | cosh | tanh | csch | sech | coth | asinh | acosh | atanh | acsch | asech | acoth
  | log | ln | log2 | exp =>
    rw [function, unitless_plain plain] at applied
    cases applied
    exact .ofNumber _
  | sign =>
    cases applied
    exact .ofNumber _
  | sqr | sqrt | cbrt =>
    rw [function, plain.unit] at applied
    cases applied
    exact .ofNumber _
  | abs | round | floor | ceiling | trunc | re | im | random | negate =>
    rw [function, plain.unit] at applied
    cases applied
    exact .ofNumber _

/-- Roots of plain numbers are plain. -/
theorem isPlain_binaryFunction {f : BinaryFunction} (noAngle : f.returnsAngle = false)
    (plain : a.IsPlain) (applied : c.binaryFunction f a b = .ok q) : q.IsPlain := by
  cases f with
  | atan2 => cases noAngle
  | root =>
    simp only [binaryFunction, plain.unit] at applied
    split at applied
    · cases applied
    · split at applied
      · cases applied
      · cases applied
        exact .ofNumber _

theorem isPlain_product {first : Value} {rest : List Value} (plain : first.IsPlain)
    (others : ∀ x ∈ rest, x.IsPlain) (applied : c.product first rest = .ok q) : q.IsPlain := by
  unfold product at applied
  induction rest generalizing first with
  | nil =>
    cases applied
    exact plain
  | cons x rest ih =>
    rw [List.foldlM_cons] at applied
    cases times : c.operator .multiply first x with
    | error e => rw [times] at applied; cases applied
    | ok y =>
      rw [times] at applied
      exact ih (isPlain_operator plain (others x List.mem_cons_self) times)
        (fun z within => others z (List.mem_cons_of_mem x within)) applied

theorem isPlain_switch {name : String} {args : List Value} (plain : ∀ x ∈ args, x.IsPlain)
    (applied : switch name args = .ok q) : q.IsPlain := by
  fun_induction switch name args with
  | case1 condition value rest ih =>
    rw [unitless_plain (plain condition (by simp))] at applied
    simp only [bind, Except.bind] at applied
    split at applied
    · cases applied
      exact plain q (by simp)
    · exact ih (fun x within => plain x (by simp [within])) applied
  | case2 otherwise =>
    cases applied
    exact plain q (by simp)
  | case3 =>
    cases applied
    exact .undefined

/-- Functions of many plain numbers have plain results. -/
theorem isPlain_multiFunction {f : MultiFunction} {args : List Value}
    (plain : ∀ x ∈ args, x.IsPlain) (applied : c.multiFunction f args = .ok q) : q.IsPlain := by
  cases args with
  | nil => cases applied
  | cons first rest =>
    have unit : first.unit = none := (plain first List.mem_cons_self).unit
    cases f with
    | min | max | sum | average | sumsq | srss =>
      simp only [multiFunction, unit] at applied
      cases nums : aligned first (first :: rest) <;> rw [nums] at applied <;> cases applied
      exact .ofNumber _
    | product =>
      exact isPlain_product (plain first List.mem_cons_self)
        (fun x within => plain x (List.mem_cons_of_mem first within)) applied
    | mean =>
      simp only [multiFunction] at applied
      cases times : c.product first rest with
      | error e => rw [times] at applied; cases applied
      | ok p =>
        have plain' := isPlain_product (plain first List.mem_cons_self)
          (fun x within => plain x (List.mem_cons_of_mem first within)) times
        rw [times] at applied
        cases applied
        exact ⟨by rw [plain'.unit]; rfl, rfl⟩
    | switch => exact isPlain_switch plain applied
    | and | or | xor =>
      cases applied
      exact .ofNumber _
    | gcd =>
      simp only [multiFunction] at applied
      cases nums : magnitudes MultiFunction.gcd.name (first :: rest) <;> rw [nums] at applied <;>
        cases applied
      exact .ofNumber _
    | lcm =>
      simp only [multiFunction] at applied
      cases nums : magnitudes MultiFunction.lcm.name (first :: rest) with
      | error e => rw [nums] at applied; cases applied
      | ok ns =>
        rw [nums] at applied
        cases least : Integers.lcmList? ns <;> simp only [bind, Except.bind, least] at applied <;>
          cases applied <;> exact .ofNumber _

/-- Calculators that differ in the number that was drawn, and in whether angles have a unit. -/
structure Alike (c d : Calculator Float) : Prop where
  kernel : c.kernel = d.kernel
  angle : c.angle = d.angle
  drawsNothing : ∀ f, f ≠ .random → ∀ z, c.kernel.function c.draw f z = c.kernel.function d.draw f z

variable {d : Calculator Float}

namespace Alike

theorem refl (c : Calculator Float) : c.Alike c :=
  ⟨rfl, rfl, fun _ _ _ => rfl⟩

theorem operator (alike : c.Alike d) (o : Operator) (a b : Value) :
    c.operator o a b = d.operator o a b := by
  simp only [Calculator.operator]
  congr 1
  cases o <;> simp only [operatorResult, alike.kernel]

theorem function (alike : c.Alike d) {f : Function} (plain : f ≠ .random)
    (noAngle : f.returnsAngle = false) (a : Value) : c.function f a = d.function f a := by
  have same : c.kernel.function c.draw f = d.kernel.function d.draw f := by
    funext z
    rw [alike.drawsNothing f plain z, alike.kernel]
  cases f with
  | asin | acos | atan | acsc | asec | acot | phase => cases noAngle
  | _ => simp only [Calculator.function, same, radians, alike.angle]

theorem binaryFunction (alike : c.Alike d) {f : BinaryFunction} (noAngle : f.returnsAngle = false)
    (a b : Value) : c.binaryFunction f a b = d.binaryFunction f a b := by
  cases f with
  | atan2 => cases noAngle
  | root => simp only [Calculator.binaryFunction, alike.kernel]

theorem multiFunction (alike : c.Alike d) (f : MultiFunction) (args : List Value) :
    c.multiFunction f args = d.multiFunction f args := by
  have product : ∀ (first : Value) rest, c.product first rest = d.product first rest := by
    intro first rest
    simp only [Calculator.product]
    congr 1
    funext x y
    exact alike.operator .multiply x y
  cases args with
  | nil => rfl
  | cons first rest => cases f <;> simp only [Calculator.multiFunction, product, alike.kernel]

end Alike

end Calculator

/-- Only random numbers depend on the number that was drawn. -/
theorem Kernel.function_ofMode (isComplex : Bool) {f : Function} (plain : f ≠ .random)
    (draw draw' : Float) (z : Complex Float) :
    (Kernel.ofMode isComplex).function draw f z = (Kernel.ofMode isComplex).function draw' f z := by
  cases isComplex <;> cases f <;> first | rfl | exact absurd rfl plain

/-- Sessions with the same settings calculate alike. -/
theorem Session.calculator_alike {s s' : Session} (same : s.settings = s'.settings) :
    s.calculator.Alike s'.calculator where
  kernel := by simp only [Session.calculator, same]
  angle := by simp only [Session.calculator, same]
  drawsNothing _ plain := Kernel.function_ofMode _ plain _ _

end UnitCalc
