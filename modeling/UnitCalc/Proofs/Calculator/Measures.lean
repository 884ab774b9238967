/-
# Operations on amounts

Each operation on real quantities computes the operation on their amounts, in either mode of
the calculator: sums, differences, remainders and comparisons of one dimension, products and
quotients of any, powers with a plain exponent, roots, and the functions of many arguments.

## Main definitions

* `Measures`: a computation succeeds with a quantity of an amount.

## Main results

* One theorem `Calculator.measures_…` for each operation or group of alike ones.
-/

import UnitCalc.Calculator.Evaluation
import UnitCalc.Proofs.Calculator.Amounts

noncomputable section

namespace UnitCalc

/-- The computation succeeds with a measured quantity of the amount. -/
def Measures (result : Except CalcError (Quantity ℝ ℝ)) (m : Amount) : Prop :=
  ∃ q, result = .ok q ∧ q.IsMeasured ∧ q.amount = m

/-- A number and a unit that make up a factor measure multiples of that factor. -/
theorem Counts.measures {result : ℝ × Option (MeasureUnit ℝ ℝ)} {factor : ℝ}
    {dimension : Dimension ℝ} (counts : Counts result factor dimension) (x : ℝ)
    (isLiteral : Bool) :
    Measures (.ok ⟨.ofReal (x * result.1), result.2, isLiteral⟩)
      ⟨x * factor, dimension⟩ := by
  refine ⟨_, rfl, ⟨rfl, counts.positive⟩, ?_⟩
  rw [Quantity.amount_eq, ← counts.factor, ← counts.dimension, ← mul_assoc]
  rfl

/-- A number of a unit measures its multiple of the factor. -/
theorem measures_of_unit {x value : ℝ} {unit : Option (MeasureUnit ℝ ℝ)} {isLiteral : Bool}
    (positive : 0 < unitFactor unit) (total : x * unitFactor unit = value) :
    Measures (.ok ⟨.ofReal x, unit, isLiteral⟩) ⟨value, unitDimension unit⟩ := by
  have counts : Counts (1, unit) (unitFactor unit) (unitDimension unit) :=
    ⟨positive, one_mul _, rfl⟩
  have measures := counts.measures x isLiteral
  rwa [mul_one, total] at measures

namespace Quantity

variable {a : Quantity ℝ ℝ}

theorem amount_value (a : Quantity ℝ ℝ) : a.amount.value = a.re * unitFactor a.unit :=
  congrArg Amount.value a.amount_eq

namespace IsMeasured

theorem num_eq (measured : a.IsMeasured) : a.num = .ofReal a.re :=
  Complex.eq_ofReal measured.real

theorem re_eq (measured : a.IsMeasured) : a.re = a.amount.value / unitFactor a.unit := by
  rw [amount_value, mul_div_cancel_right₀ _ measured.positive.ne']

end IsMeasured

end Quantity

namespace Complex

theorem scale_ofReal (x k : ℝ) : (ofReal x).scale k = ofReal (x * k) :=
  Complex.ext rfl (zero_mul k)

theorem add_ofReal (x y : ℝ) : ofReal x + ofReal y = ofReal (x + y) :=
  Complex.ext rfl (add_zero 0)

theorem sub_ofReal (x y : ℝ) : ofReal x - ofReal y = ofReal (x - y) :=
  Complex.ext rfl (sub_zero 0)

theorem mul_ofReal (x y : ℝ) : ofReal x * ofReal y = ofReal (x * y) := by
  have re : x * y - 0 * 0 = x * y := by ring
  have im : x * 0 + 0 * y = 0 := by ring
  exact Complex.ext re im

end Complex

/-- One for a statement that holds and zero for one that does not. -/
def Amount.truth (p : Prop) : Amount :=
  ⟨open Classical in if p then 1 else 0, .none⟩

namespace Operator

/-- The six comparisons. -/
def isComparison : Operator → Bool
  | less | greater | lessOrEqual | greaterOrEqual | equal | notEqual => true
  | _ => false

/-- The operator brings its operands to one unit. -/
def aligns (o : Operator) : Bool :=
  o = add || o = subtract || o = modulo || o.isComparison

/-- What a comparison says. -/
def Compares (o : Operator) (x y : ℝ) : Prop :=
  match o with
  | less => x < y
  | greater => y < x
  | lessOrEqual => x ≤ y
  | greaterOrEqual => y ≤ x
  | equal => x = y
  | notEqual => x ≠ y
  | _ => False

/-- Comparisons do not depend on the unit that both numbers are counted in. -/
theorem compares_div {o : Operator} {x y k : ℝ} (positive : 0 < k) :
    o.Compares (x / k) (y / k) ↔ o.Compares x y := by
  have nonzero := positive.ne'
  cases o <;> simp only [Compares, div_lt_div_iff_of_pos_right positive,
    div_le_div_iff_of_pos_right positive, div_left_inj' nonzero, ne_eq]

end Operator

/-- Powers of a unit, or of no unit. -/
theorem counts_map_pow {unit : Option (MeasureUnit ℝ ℝ)} (positive : 0 < unitFactor unit) (n : ℝ) :
    Counts (1, unit.map (·.pow n)) (unitFactor unit ^ n) ((unitDimension unit).pow n) := by
  match unit, positive with
  | none, _ =>
    exact ⟨one_pos, (mul_one 1).trans (Real.one_rpow n).symm, (Dimension.none_pow n).symm⟩
  | some u, positive => exact ⟨Real.rpow_pos_of_pos positive n, one_mul _, rfl⟩

namespace Calculator

variable {c : Calculator ℝ} {isComplex : Bool} {a b : Quantity ℝ ℝ}

/-- The result of an operator measures the same whether it counts as a literal or not. -/
theorem measures_operator {o : Operator} {m : Amount}
    (measures : Measures (c.operatorResult o a b) m) : Measures (c.operator o a b) m := by
  obtain ⟨q, ok, ⟨real, positive⟩, amount⟩ := measures
  rw [operator, ok]
  exact ⟨{ q with isLiteral := staysLiteral o a b }, rfl, ⟨real, positive⟩, amount⟩

theorem measures_truth {holds : Bool} {p : Prop} (agree : holds = true ↔ p) :
    Measures (.ok (truth holds)) (.truth p) := by
  classical
  have value : (if holds then (1 : ℝ) else 0) = (Amount.truth p).value := if_congr agree rfl rfl
  exact measures_of_unit one_pos ((mul_one _).trans value)

theorem compares_ofReal {o : Operator} (comparison : o.isComparison) {x y : ℝ} :
    compares o (.ofReal x) (.ofReal y) = true ↔ o.Compares x y := by
  have equal : (Complex.ofReal x == .ofReal y) = true ↔ x = y := by
    show (x == y && (0 : ℝ) == 0) = true ↔ x = y
    rw [Bool.and_eq_true, beq_iff_eq, beq_iff_eq, and_iff_left rfl]
  cases o with
  | less | greater | lessOrEqual | greaterOrEqual => exact decide_eq_true_iff
  | equal => exact equal
  | notEqual =>
    show (!(Complex.ofReal x == .ofReal y)) = true ↔ x ≠ y
    rw [Bool.not_eq_true', ← Bool.not_eq_true, equal]
  | _ => cases comparison

/-- Operators that bring their operands to one unit do nothing else that fails. -/
theorem operator_of_aligns {o : Operator} (aligns : o.aligns) :
    ∃ f : ℝ × Option (MeasureUnit ℝ ℝ) → Quantity ℝ ℝ,
      c.operator o a b = (a.sumUnit b o.symbol).map f := by
  have result : ∃ f : ℝ × Option (MeasureUnit ℝ ℝ) → Quantity ℝ ℝ,
      c.operatorResult o a b = (a.sumUnit b o.symbol).map f := by
    cases o with
    | add | subtract | modulo => exact ⟨_, rfl⟩
    | less | greater | lessOrEqual | greaterOrEqual | equal | notEqual => exact ⟨_, rfl⟩
    | _ => cases aligns
  obtain ⟨f, result⟩ := result
  refine ⟨fun r => { f r with isLiteral := staysLiteral o a b }, ?_⟩
  rw [operator, result]
  cases a.sumUnit b o.symbol <;> rfl

/-- They succeed when both operands have the same dimension. -/
theorem operator_succeeds_iff {o : Operator} (aligns : o.aligns) (measured : a.IsMeasured) :
    (∃ q, c.operator o a b = .ok q) ↔ unitDimension a.unit = unitDimension b.unit := by
  obtain ⟨f, result⟩ := operator_of_aligns (c := c) (a := a) (b := b) aligns
  rw [result]
  constructor
  · rintro ⟨q, ok⟩
    -- Whatever is computed behind the unit, there is no unit for different dimensions.
    by_contra differ
    obtain ⟨e, error⟩ := Quantity.sumUnit_error differ o.symbol
    rw [error] at ok
    cases ok
  · intro same
    rw [Quantity.sumUnit_ok measured.positive same]
    exact ⟨_, rfl⟩

section Operators

variable (measured : a.IsMeasured) (measured' : b.IsMeasured)

include measured

theorem measures_modulo (same : unitDimension a.unit = unitDimension b.unit) :
    Measures (c.operator .modulo a b)
      ⟨remainderOf a.amount.value b.amount.value, unitDimension a.unit⟩ := by
  have nonzero := measured.positive.ne'
  apply measures_operator
  rw [operatorResult, Quantity.sumUnit_ok measured.positive same]
  show Measures (.ok ⟨.ofReal (remainderOf a.re (b.re * (unitFactor b.unit / unitFactor a.unit))),
    a.unit, false⟩) _
  -- Both operands are counted in the first unit, whose factor comes out of the remainder.
  apply measures_of_unit measured.positive
  rw [a.amount_value, b.amount_value, ← remainderOf_mul _ _ nonzero, mul_assoc,
    div_mul_cancel₀ _ nonzero]

include measured'

theorem measures_add (same : unitDimension a.unit = unitDimension b.unit) :
    Measures (c.operator .add a b) ⟨a.amount.value + b.amount.value, unitDimension a.unit⟩ := by
  have nonzero := measured.positive.ne'
  apply measures_operator
  rw [operatorResult, measured.num_eq, measured'.num_eq, Quantity.sumUnit_ok measured.positive same]
  show Measures (.ok ⟨.ofReal a.re + (Complex.ofReal b.re).scale _, _, _⟩) _
  rw [Complex.scale_ofReal, Complex.add_ofReal]
  apply measures_of_unit measured.positive
  rw [a.amount_value, b.amount_value]
  field_simp

theorem measures_subtract (same : unitDimension a.unit = unitDimension b.unit) :
    Measures (c.operator .subtract a b)
      ⟨a.amount.value - b.amount.value, unitDimension a.unit⟩ := by
  have nonzero := measured.positive.ne'
  apply measures_operator
  rw [operatorResult, measured.num_eq, measured'.num_eq, Quantity.sumUnit_ok measured.positive same]
  show Measures (.ok ⟨.ofReal a.re - (Complex.ofReal b.re).scale _, _, _⟩) _
  rw [Complex.scale_ofReal, Complex.sub_ofReal]
  apply measures_of_unit measured.positive
  rw [a.amount_value, b.amount_value]
  field_simp

/-- Comparisons compare the amounts. -/
theorem measures_compare {o : Operator} (comparison : o.isComparison)
    (same : unitDimension a.unit = unitDimension b.unit) :
    Measures (c.operator o a b) (.truth (o.Compares a.amount.value b.amount.value)) := by
  have positive := measured.positive
  have aligned : b.re * (unitFactor b.unit / unitFactor a.unit) =
      b.amount.value / unitFactor a.unit := by
    rw [b.amount_value, mul_div_assoc]
  -- The numbers that are compared are the amounts, both counted in the first unit.
  have agree : compares o a.num (b.num.scale (unitFactor b.unit / unitFactor a.unit)) =
      true ↔ o.Compares a.amount.value b.amount.value := by
    rw [measured.num_eq, measured'.num_eq, Complex.scale_ofReal, compares_ofReal comparison,
      aligned, measured.re_eq, Operator.compares_div positive]
  apply measures_operator
  -- All comparisons are one branch of the operators.
  have result : c.operatorResult o a b = (do
      let (k, _) ← a.sumUnit b o.symbol
      return truth (compares o a.num (b.num.scale k))) := by
    cases o <;> first | rfl | cases comparison
  rw [result, Quantity.sumUnit_ok positive same]
  exact measures_truth agree

variable (mode : c.kernel = .ofMode isComplex)

include mode

theorem measures_multiply :
    Measures (c.operator .multiply a b)
      ⟨a.amount.value * b.amount.value, unitDimension a.unit * unitDimension b.unit⟩ := by
  have counts := Quantity.counts_productUnit measured.positive measured'.positive
  have value : a.amount.value * b.amount.value =
      a.re * b.re * (unitFactor a.unit * unitFactor b.unit) := by
    rw [a.amount_value, b.amount_value]
    ring
  apply measures_operator
  rw [operatorResult, mode, measured.num_eq, measured'.num_eq, Kernel.mul_ofMode, value]
  show Measures (.ok ⟨(Complex.ofReal (a.re * b.re)).scale _, _, _⟩) _
  rw [Complex.scale_ofReal]
  exact counts.measures (a.re * b.re) false

theorem measures_divide :
    Measures (c.operator .divide a b)
      ⟨a.amount.value / b.amount.value, unitDimension a.unit / unitDimension b.unit⟩ := by
  have counts := Quantity.counts_quotientUnit measured.positive measured'.positive
  have value : a.amount.value / b.amount.value =
      a.re / b.re * (unitFactor a.unit / unitFactor b.unit) := by
    rw [a.amount_value, b.amount_value, mul_div_mul_comm]
  apply measures_operator
  rw [operatorResult, mode, measured.num_eq, measured'.num_eq, Kernel.div_ofMode, value]
  show Measures (.ok ⟨(Complex.ofReal (a.re / b.re)).scale _, _, _⟩) _
  rw [Complex.scale_ofReal]
  exact counts.measures (a.re / b.re) false

/-- Powers of positive amounts, and powers of any to integers. -/
theorem measures_power (dimensionless : unitDimension b.unit = .none)
    (defined : 0 < a.amount.value ∨ ∃ n : ℤ, b.amount.value = n) :
    Measures (c.operator .power a b)
      ⟨a.amount.value ^ b.amount.value, (unitDimension a.unit).pow b.amount.value⟩ := by
  have positive := measured.positive
  obtain ⟨u, ok, counts⟩ := Quantity.counts_powerUnit positive measured' dimensionless
  have value : a.amount.value ^ b.amount.value =
      a.re ^ b.amount.value * unitFactor a.unit ^ b.amount.value := by
    -- The factor of the unit comes out of the power: its base is positive, or the exponent is
    -- an integer.
    obtain base | ⟨n, exponent⟩ := defined
    · rw [a.amount_value, mul_pos_iff_of_pos_right positive] at base
      rw [a.amount_value, Real.mul_rpow base.le positive.le]
    · rw [a.amount_value, exponent]
      simp only [Real.rpow_intCast, mul_zpow]
  have real : 0 ≤ a.re ∨ ∃ n : ℤ, b.amount.value = n := by
    rw [a.amount_value, mul_pos_iff_of_pos_right positive] at defined
    exact defined.imp_left le_of_lt
  apply measures_operator
  rw [operatorResult, ok, mode, measured.num_eq,
    Quantity.num_collapsed measured' dimensionless, Kernel.pow_ofMode _ real, value]
  have measures := counts.measures (a.re ^ b.amount.value) false
  rwa [mul_one] at measures

end Operators

/-- A power needs an exponent without dimension. -/
theorem power_succeeds_iff (measured : a.IsMeasured) (measured' : b.IsMeasured) :
    (∃ q, c.operator .power a b = .ok q) ↔ unitDimension b.unit = .none := by
  rw [operator, operatorResult]
  constructor
  · rintro ⟨q, ok⟩
    by_contra dimension
    rw [Quantity.powerUnit_error dimension] at ok
    cases ok
  · intro dimensionless
    obtain ⟨u, allowed, -⟩ := Quantity.counts_powerUnit measured.positive measured' dimensionless
    rw [allowed]
    exact ⟨_, rfl⟩

section Functions

/-- A root is taken of the number and of the unit. -/
theorem measures_rooted {n : ℕ} {x y : ℝ} {unit : Option (MeasureUnit ℝ ℝ)} (nonzero : n ≠ 0)
    (positive : 0 < unitFactor unit) (root : IsRoot n (x * unitFactor unit) y) :
    Measures (.ok ⟨.ofReal (rootOf n x), unit.map (·.pow (1 / n)), false⟩)
      ⟨y, (unitDimension unit).pow (1 / n)⟩ := by
  have measures := (counts_map_pow positive (1 / n)).measures (rootOf n x) false
  rwa [mul_one, ← rootOf_mul _ _ positive, ← root.eq_rootOf nonzero] at measures

/-- The number has the sign of the amount. -/
theorem nonneg_or_odd {n : ℕ} {x y k : ℝ} (positive : 0 < k) (root : IsRoot n (x * k) y) :
    0 ≤ x ∨ Odd n := by
  have sign := root.nonneg_or_odd
  rwa [mul_nonneg_iff_of_pos_right positive] at sign

/-- A root is taken when its index has no unit and is an integer above one. -/
theorem binaryFunction_root (real : b.im = 0) {n : ℕ} (plain : b.unit = none) (large : 2 ≤ n)
    (index : b.re = n) :
    c.binaryFunction .root a b =
      .ok { num := c.kernel.root a.num n, unit := a.unit.map (·.pow (1 / (n : ℝ))) } := by
  have enough : decide ((n : ℝ) < 2.0) = false := by
    have two : (2.0 : ℝ) = (2 : ℕ) := by norm_num
    rw [two]
    exact decide_eq_false (not_lt.2 (Nat.cast_le.2 large))
  have integral : Scalar.isIntegral (n : ℝ) = true := Scalar.isIntegral_iff.2 ⟨n, rfl⟩
  have isReal : b.isReal = true := beq_iff_eq.2 real
  -- None of the conditions for refusing the index holds.
  rw [binaryFunction, plain, index, isReal]
  show (if false = true then _ else if false || decide ((n : ℝ) < 2.0) ||
    !Scalar.isIntegral (n : ℝ) then _ else _) = _
  rw [enough, integral]
  rfl

/-- Nothing else is the index of a root. -/
theorem index_of_root {q : Quantity ℝ ℝ} (taken : c.binaryFunction .root a b = .ok q) :
    b.unit = none ∧ ∃ n : ℕ, 2 ≤ n ∧ b.re = n := by
  simp only [binaryFunction] at taken
  split_ifs at taken with hasUnit refused
  have plain : b.unit = none := by
    rwa [Option.isSome_iff_ne_none, not_not] at hasUnit
  have two : (2.0 : ℝ) = 2 := by norm_num
  simp only [Bool.or_eq_true, not_or, Bool.not_eq_true', Bool.not_eq_false, decide_eq_true_iff,
    two, not_lt] at refused
  obtain ⟨⟨-, large⟩, integral⟩ := refused
  obtain ⟨n, index⟩ := Scalar.isIntegral_iff.1 integral
  -- The index is an integer that is not below two, so it is a natural number.
  have least : (2 : ℤ) ≤ n := by
    rw [index] at large
    exact_mod_cast large
  obtain ⟨k, rfl⟩ := Int.eq_ofNat_of_zero_le (by omega : 0 ≤ n)
  exact ⟨plain, k, by omega, index⟩

variable (measured : a.IsMeasured) (mode : c.kernel = .ofMode isComplex)

include measured mode

theorem measures_negate :
    Measures (c.function .negate a) ⟨-a.amount.value, unitDimension a.unit⟩ := by
  rw [function, mode, measured.num_eq]
  show Measures (.ok ⟨(Kernel.ofMode isComplex).function c.draw .negate (.ofReal a.re), _, _⟩) _
  rw [Kernel.negate_ofMode]
  apply measures_of_unit measured.positive
  rw [a.amount_value, neg_mul]

theorem measures_abs :
    Measures (c.function .abs a) ⟨|a.amount.value|, unitDimension a.unit⟩ := by
  rw [function, mode, measured.num_eq]
  show Measures (.ok ⟨(Kernel.ofMode isComplex).function c.draw .abs (.ofReal a.re), _, _⟩) _
  rw [Kernel.abs_ofMode]
  apply measures_of_unit measured.positive
  rw [a.amount_value, abs_mul, abs_of_pos measured.positive]

theorem measures_sqrt {y : ℝ} (root : IsRoot 2 a.amount.value y) :
    Measures (c.function .sqrt a) ⟨y, (unitDimension a.unit).pow (1 / 2)⟩ := by
  rw [a.amount_value] at root
  have nonnegative : 0 ≤ a.re := (nonneg_or_odd measured.positive root).resolve_right (by decide)
  have half : (1 / 2 : ℝ) = 1 / (2 : ℕ) := by norm_num
  have index : (reciprocal (2.0 : ℝ) : ℝ) = 1 / (2 : ℕ) := by
    show 1 / (2.0 : ℝ) = 1 / (2 : ℕ)
    norm_num
  -- The number has the sign of the amount, and its root is the real square root.
  have same : Real.sqrt a.re = rootOf (2 : ℕ) a.re := by
    rw [rootOf_of_nonneg _ nonnegative, Real.sqrt_eq_rpow, half]
  rw [function, mode, measured.num_eq, index, half]
  show Measures (.ok ⟨(Kernel.ofMode isComplex).function c.draw .sqrt (.ofReal a.re), _, _⟩) _
  rw [Kernel.sqrt_ofMode _ _ nonnegative, same]
  exact measures_rooted two_ne_zero measured.positive root

theorem measures_cbrt {y : ℝ} (root : IsRoot 3 a.amount.value y) :
    Measures (c.function .cbrt a) ⟨y, (unitDimension a.unit).pow (1 / 3)⟩ := by
  rw [a.amount_value] at root
  have third : (1 / 3 : ℝ) = 1 / (3 : ℕ) := by norm_num
  have index : (reciprocal (3.0 : ℝ) : ℝ) = 1 / (3 : ℕ) := by
    show 1 / (3.0 : ℝ) = 1 / (3 : ℕ)
    norm_num
  rw [function, mode, measured.num_eq, index, third]
  show Measures (.ok ⟨(Kernel.ofMode isComplex).function c.draw .cbrt (.ofReal a.re), _, _⟩) _
  rw [Kernel.cbrt_ofMode]
  exact measures_rooted three_ne_zero measured.positive root

theorem measures_root {y : ℝ} (plain : b.unit = none) (real : b.im = 0) {n : ℕ} (large : 2 ≤ n)
    (index : b.re = n) (root : IsRoot n a.amount.value y) :
    Measures (c.binaryFunction .root a b) ⟨y, (unitDimension a.unit).pow (1 / n)⟩ := by
  rw [a.amount_value] at root
  rw [binaryFunction_root real plain large index, mode, measured.num_eq,
    Kernel.root_ofMode _ (nonneg_or_odd measured.positive root)]
  exact measures_rooted (by omega) measured.positive root

end Functions

end Calculator

end UnitCalc

end
