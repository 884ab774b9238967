/-
# Amounts of physical quantities

In exact arithmetic a real quantity stands for an amount: its number times the factor of its
unit, and the dimension of the unit. A missing unit has the factor one and no dimension. The
units of sums, products, quotients and powers, with the numbers that go with them, are such
that amounts are added, multiplied, divided and raised, whatever units they are counted in.

## Main definitions

* `Quantity.amount`, and `Quantity.IsMeasured` for the quantities that have one.
* `Counts`: a number and a unit that together make up a factor and a dimension.

## Main results

* `Quantity.sumUnit_ok`, `sumUnit_error`, `counts_productUnit`, `counts_quotientUnit` and
  `counts_powerUnit`.
-/

import UnitCalc.Proofs.Calculator.Exact
import UnitCalc.Quantity.Basic

noncomputable section

namespace UnitCalc

/-- How much of a physical quantity there is in coherent units, and its dimension. -/
@[ext]
structure Amount where
  value : ℝ
  dimension : Dimension ℝ

/-- The coherent units in one of a unit, one for a plain number. -/
def unitFactor : Option (MeasureUnit ℝ ℝ) → ℝ
  | some u => u.factor
  | none => 1

/-- The dimension of a unit, none for a plain number. -/
def unitDimension : Option (MeasureUnit ℝ ℝ) → Dimension ℝ
  | some u => u.dimension
  | none => .none

namespace Dimension

variable (d e : Dimension ℝ)

instance : LawfulBEq (Dimension ℝ) where
  eq_of_beq {d e} same := by
    simp only [BEq.beq, Bool.and_eq_true, decide_eq_true_iff] at same
    ext <;> simp only [same]
  rfl {d} := by simp only [BEq.beq, Bool.and_eq_true, decide_eq_true_iff, and_self]

theorem isNone_iff : d.isNone = true ↔ d = .none :=
  beq_iff_eq

theorem mul_none : d * .none = d := by
  ext <;> exact add_zero _

theorem none_mul : .none * d = d := by
  ext <;> exact zero_add _

theorem div_none : d / .none = d := by
  ext <;> exact sub_zero _

theorem div_self : d / d = .none := by
  ext <;> exact sub_self _

theorem pow_two : d.pow (1 + 1) = d * d := by
  ext <;> exact (congrArg _ one_add_one_eq_two).trans (mul_two _)

theorem pow_neg_one : d.pow (-1) = .none / d := by
  ext <;> exact (mul_neg_one _).trans (zero_sub _).symm

theorem pow_zero : d.pow 0 = .none := by
  ext <;> exact mul_zero _

theorem none_pow (n : ℝ) : (.none : Dimension ℝ).pow n = .none := by
  ext <;> exact zero_mul _

end Dimension

namespace MeasureUnit

variable {u v : MeasureUnit ℝ ℝ}

theorem isDimensionless_iff : u.isDimensionless = true ↔ u.dimension = .none :=
  u.dimension.isNone_iff

theorem sharesDimension_iff : u.sharesDimension v = true ↔ u.dimension = v.dimension :=
  beq_iff_eq

/-- Equal units have the same dimension and the same factor. -/
theorem of_beq (equal : (u == v) = true) : u.dimension = v.dimension ∧ u.factor = v.factor := by
  have parts : (u.dimension == v.dimension && u.factor == v.factor && u.text == v.text) = true :=
    equal
  rw [Bool.and_eq_true, Bool.and_eq_true, beq_iff_eq, beq_iff_eq] at parts
  exact parts.1

theorem factor_pow_two (u : MeasureUnit ℝ ℝ) : (u.pow (1 + 1)).factor = u.factor * u.factor := by
  show u.factor ^ ((1 : ℝ) + 1) = u.factor * u.factor
  rw [one_add_one_eq_two, Real.rpow_two, sq]

theorem factor_inverse (u : MeasureUnit ℝ ℝ) : u.inverse.factor = u.factor⁻¹ :=
  Real.rpow_neg_one u.factor

theorem dimension_inverse (u : MeasureUnit ℝ ℝ) : u.inverse.dimension = .none / u.dimension :=
  u.dimension.pow_neg_one

theorem factor_join (u v : MeasureUnit ℝ ℝ) : (u.join v).factor = u.factor * v.factor := by
  show u.factor * v.factor ^ (1 : ℝ) = _
  rw [Real.rpow_one]

theorem dimension_join (u v : MeasureUnit ℝ ℝ) : (u.join v).dimension = u.dimension * v.dimension :=
  if_pos (zero_lt_one' ℝ)

theorem factor_joinOver (u v : MeasureUnit ℝ ℝ) :
    (u.joinOver v).factor = u.factor / v.factor := by
  show u.factor * v.factor ^ (-1 : ℝ) = _
  rw [Real.rpow_neg_one, div_eq_mul_inv]

theorem dimension_joinOver (u v : MeasureUnit ℝ ℝ) :
    (u.joinOver v).dimension = u.dimension / v.dimension :=
  if_neg (neg_one_lt_zero.not_gt : ¬ (0 : ℝ) < -1)

end MeasureUnit

/-- A number and a unit that together make up a factor and a dimension. -/
structure Counts (result : ℝ × Option (MeasureUnit ℝ ℝ)) (factor : ℝ)
    (dimension : Dimension ℝ) : Prop where
  positive : 0 < unitFactor result.2
  factor : result.1 * unitFactor result.2 = factor
  dimension : unitDimension result.2 = dimension

namespace MeasureUnit

variable {u v : MeasureUnit ℝ ℝ}

/-- A unit without dimension is the number it is. -/
theorem counts_reduced (positive : 0 < u.factor) : Counts u.reduced u.factor u.dimension := by
  rw [reduced]
  by_cases dimensionless : u.isDimensionless
  · rw [if_pos dimensionless, isDimensionless_iff.1 dimensionless]
    exact ⟨one_pos, mul_one _, rfl⟩
  · rw [if_neg dimensionless]
    exact ⟨positive, one_mul _, rfl⟩

theorem counts_multiply (positive : 0 < u.factor) (positive' : 0 < v.factor) :
    Counts (u.multiply? v) (u.factor * v.factor) (u.dimension * v.dimension) := by
  rw [multiply?]
  -- A factor without dimension goes into the number, and two units of one dimension become
  -- the square of the first; only other units are joined.
  split_ifs with right left same
  · rw [isDimensionless_iff.1 right, Dimension.mul_none]
    exact ⟨positive, mul_comm _ _, rfl⟩
  · rw [isDimensionless_iff.1 left, Dimension.none_mul]
    exact ⟨positive', rfl, rfl⟩
  · have shared : u.dimension = v.dimension := by
      rw [Bool.and_eq_true, sharesDimension_iff] at same
      exact same.1
    refine ⟨?_, ?_, ?_⟩
    · show 0 < (u.pow (1 + 1)).factor
      rw [factor_pow_two]
      exact mul_pos positive positive
    · show v.factor / u.factor * (u.pow (1 + 1)).factor = u.factor * v.factor
      rw [factor_pow_two]
      field_simp
    · rw [← shared]
      exact u.dimension.pow_two
  · have factor := factor_join u v
    have counts := counts_reduced (u := u.join v) (by rw [factor]; exact mul_pos positive positive')
    rwa [factor, dimension_join] at counts

theorem counts_divide (positive : 0 < u.factor) (positive' : 0 < v.factor) :
    Counts (u.divide? v) (u.factor / v.factor) (u.dimension / v.dimension) := by
  rw [divide?]
  -- The branches are those of products, except that units of one dimension cancel.
  split_ifs with right left same
  · rw [isDimensionless_iff.1 right, Dimension.div_none]
    exact ⟨positive, one_div_mul_eq_div _ _, rfl⟩
  · rw [isDimensionless_iff.1 left, ← dimension_inverse]
    refine ⟨?_, ?_, rfl⟩
    · show 0 < v.inverse.factor
      rw [factor_inverse]
      exact inv_pos.2 positive'
    · show u.factor * v.inverse.factor = _
      rw [factor_inverse, div_eq_mul_inv]
  · rw [sharesDimension_iff.1 same, Dimension.div_self]
    exact ⟨one_pos, mul_one _, rfl⟩
  · have factor := factor_joinOver u v
    have counts := counts_reduced (u := u.joinOver v)
      (by rw [factor]; exact div_pos positive positive')
    rwa [factor, dimension_joinOver] at counts

end MeasureUnit

/-- Units of one dimension, and a plain number and a unit without any, are converted into each
other by the quotient of their factors. -/
theorem conversion_ok {a b : Option (MeasureUnit ℝ ℝ)} (positive : 0 < unitFactor a)
    (same : unitDimension a = unitDimension b) (op : Char) :
    conversion a b op = .ok (unitFactor b / unitFactor a) := by
  match a, b with
  | none, none => rw [conversion, unitFactor, div_one]
  | none, some v =>
    rw [conversion, if_pos (MeasureUnit.isDimensionless_iff.2 same.symm)]
    exact congrArg Except.ok (div_one v.factor).symm
  | some u, none =>
    rw [conversion, if_pos (MeasureUnit.isDimensionless_iff.2 same)]
    rfl
  | some u, some v =>
    rw [conversion]
    by_cases equal : u == v
    · -- Equal units have equal factors, and one is their quotient.
      have nonzero : u.factor ≠ 0 := ne_of_gt positive
      have one : v.factor / u.factor = 1 := by
        rw [← (MeasureUnit.of_beq equal).2, div_self nonzero]
      rw [if_pos equal]
      exact congrArg Except.ok one.symm
    · rw [if_neg equal, if_pos (MeasureUnit.sharesDimension_iff.2 same)]
      rfl

/-- Nothing else is converted. -/
theorem conversion_error {a b : Option (MeasureUnit ℝ ℝ)}
    (differ : unitDimension a ≠ unitDimension b) (op : Char) :
    ∃ e, conversion a b op = .error e := by
  match a, b with
  | none, none => exact absurd rfl differ
  | none, some v =>
    have dimension : ¬ v.isDimensionless :=
      fun none => differ (MeasureUnit.isDimensionless_iff.1 none).symm
    rw [conversion, if_neg dimension]
    exact ⟨_, rfl⟩
  | some u, none =>
    have dimension : ¬ u.isDimensionless :=
      fun none => differ (MeasureUnit.isDimensionless_iff.1 none)
    rw [conversion, if_neg dimension]
    exact ⟨_, rfl⟩
  | some u, some v =>
    have notEqual : ¬ (u == v) = true :=
      fun equal => differ (MeasureUnit.of_beq equal).1
    have notShared : ¬ u.sharesDimension v :=
      fun shared => differ (MeasureUnit.sharesDimension_iff.1 shared)
    rw [conversion, if_neg notEqual, if_neg notShared]
    exact ⟨_, rfl⟩

namespace Quantity

variable {a b : Quantity ℝ ℝ}

/-- The number in coherent units, with its dimension. -/
def amount (a : Quantity ℝ ℝ) : Amount :=
  ⟨a.si.re, unitDimension a.unit⟩

theorem amount_eq (a : Quantity ℝ ℝ) :
    a.amount = ⟨a.re * unitFactor a.unit, unitDimension a.unit⟩ := by
  rw [amount, si, re]
  cases a.unit with
  | none => rw [unitFactor, mul_one]
  | some u => rfl

/-- A real number of a unit with a positive factor. -/
structure IsMeasured (a : Quantity ℝ ℝ) : Prop where
  real : a.im = 0
  positive : 0 < unitFactor a.unit

theorem sumUnit_ok (positive : 0 < unitFactor a.unit)
    (same : unitDimension a.unit = unitDimension b.unit) (op : Char) :
    a.sumUnit b op = .ok (unitFactor b.unit / unitFactor a.unit, a.unit) := by
  rw [sumUnit, conversion_ok positive same]

theorem sumUnit_error (differ : unitDimension a.unit ≠ unitDimension b.unit) (op : Char) :
    ∃ e, a.sumUnit b op = .error e := by
  obtain ⟨e, error⟩ := conversion_error differ op
  rw [sumUnit, error]
  exact ⟨_, rfl⟩

/-- What acts as a plain number has no dimension. -/
theorem unitDimension_of_scaleOnly {u : MeasureUnit ℝ ℝ} (scale : b.scaleOnly? = some u) :
    b.unit = some u ∧ unitDimension b.unit = .none := by
  rw [scaleOnly?, Option.filter_eq_some_iff, Bool.and_eq_true] at scale
  obtain ⟨unit, dimensionless, _⟩ := scale
  rw [unit]
  exact ⟨rfl, MeasureUnit.isDimensionless_iff.1 dimensionless⟩

theorem counts_productUnit (positive : 0 < unitFactor a.unit) (positive' : 0 < unitFactor b.unit) :
    Counts (a.productUnit b) (unitFactor a.unit * unitFactor b.unit)
      (unitDimension a.unit * unitDimension b.unit) := by
  rw [productUnit]
  -- A factor that acts as a plain number does not touch the unit of the other one.
  cases scale : b.scaleOnly? with
  | some u =>
    obtain ⟨unit, none⟩ := unitDimension_of_scaleOnly scale
    rw [none, Dimension.mul_none, unit]
    exact ⟨positive, mul_comm _ _, rfl⟩
  | none =>
    match a.unit, b.unit, positive, positive' with
    | none, none, _, _ => exact ⟨one_pos, rfl, (Dimension.mul_none _).symm⟩
    | some u, none, positive, _ => exact ⟨positive, mul_comm _ _, (Dimension.mul_none _).symm⟩
    | none, some v, _, positive' => exact ⟨positive', rfl, (Dimension.none_mul _).symm⟩
    | some u, some v, positive, positive' => exact MeasureUnit.counts_multiply positive positive'

theorem counts_quotientUnit (positive : 0 < unitFactor a.unit)
    (positive' : 0 < unitFactor b.unit) :
    Counts (a.quotientUnit b) (unitFactor a.unit / unitFactor b.unit)
      (unitDimension a.unit / unitDimension b.unit) := by
  rw [quotientUnit]
  -- Nor does a divisor that acts as a plain number.
  cases scale : b.scaleOnly? with
  | some u =>
    obtain ⟨unit, none⟩ := unitDimension_of_scaleOnly scale
    rw [none, Dimension.div_none, unit]
    exact ⟨positive, one_div_mul_eq_div _ _, rfl⟩
  | none =>
    match a.unit, b.unit, positive, positive' with
    | none, none, _, _ =>
      exact ⟨one_pos, (mul_one 1).trans (div_one 1).symm, (Dimension.div_none _).symm⟩
    | some u, none, positive, _ =>
      exact ⟨positive, (one_mul _).trans (div_one _).symm, (Dimension.div_none _).symm⟩
    | none, some v, _, positive' =>
      refine ⟨?_, ?_, v.dimension_inverse⟩
      · exact lt_of_lt_of_eq (inv_pos.2 positive') v.factor_inverse.symm
      · exact (one_mul _).trans (v.factor_inverse.trans (one_div _).symm)
    | some u, some v, positive, positive' => exact MeasureUnit.counts_divide positive positive'

/-- A quantity without dimension collapses to its number in coherent units. -/
theorem num_collapsed (measured : a.IsMeasured) (dimensionless : unitDimension a.unit = .none) :
    a.collapsed.num = .ofReal a.amount.value := by
  have num : a.num = .ofReal a.re := Complex.eq_ofReal measured.real
  rw [amount_eq, collapsed]
  -- Either there is no unit, or the number takes in the factor of the unit.
  match a.unit, dimensionless with
  | none, _ =>
    show a.num = .ofReal (a.re * 1)
    rw [mul_one, num]
  | some u, dimensionless =>
    show (if u.isDimensionless then _ else a : Quantity ℝ ℝ).num = .ofReal (a.re * u.factor)
    rw [if_pos (MeasureUnit.isDimensionless_iff.2 dimensionless)]
    show a.num.scale u.factor = _
    rw [num]
    exact Complex.eq_ofReal (zero_mul u.factor)

theorem powerUnit_error (dimension : unitDimension b.unit ≠ .none) :
    a.powerUnit b = .error .powerNotUnitless := by
  rw [powerUnit, if_pos]
  match b.unit, dimension with
  | none, dimension => exact absurd rfl dimension
  | some v, dimension =>
    have notNone : v.isDimensionless = false :=
      Bool.eq_false_iff.2 fun none => dimension (MeasureUnit.isDimensionless_iff.1 none)
    rw [Option.any_some, notNone]
    rfl

/-- The unit is raised to the exponent in coherent units, and dropped with the exponent zero. -/
theorem counts_powerUnit (positive : 0 < unitFactor a.unit) (measured : b.IsMeasured)
    (dimensionless : unitDimension b.unit = .none) :
    ∃ u, a.powerUnit b = .ok u ∧
      Counts (1, u) (unitFactor a.unit ^ b.amount.value)
        ((unitDimension a.unit).pow b.amount.value) := by
  have allowed : (b.unit.any fun v => !v.isDimensionless) = false := by
    match b.unit, dimensionless with
    | none, _ => rfl
    | some v, dimensionless =>
      rw [Option.any_some, MeasureUnit.isDimensionless_iff.2 dimensionless]
      rfl
  have real : b.isReal = true := beq_iff_eq.2 measured.real
  rw [powerUnit, allowed, real]
  match a.unit, positive with
  | none, _ =>
    refine ⟨none, rfl, one_pos, ?_, (Dimension.none_pow _).symm⟩
    exact (mul_one 1).trans (Real.one_rpow _).symm
  | some u, positive =>
    -- The exponent is compared with zero before it is collapsed, which is the same.
    by_cases zero : b.re = 0
    · have value : b.amount.value = 0 := by rw [amount_eq, zero, zero_mul]
      rw [value, Dimension.pow_zero, Real.rpow_zero]
      exact ⟨none, if_pos (beq_iff_eq.2 zero), one_pos, mul_one 1, rfl⟩
    · have collapsed : b.collapsed.re = b.amount.value := by
        rw [re, num_collapsed measured dimensionless]
        rfl
      have raised : u.pow (Narrowing.narrow b.collapsed.re) = u.pow b.amount.value :=
        congrArg u.pow collapsed
      refine ⟨some (u.pow b.amount.value), ?_, Real.rpow_pos_of_pos positive _, one_mul _, rfl⟩
      exact (if_neg (fun same => zero (beq_iff_eq.1 same))).trans
        (congrArg (fun v => Except.ok (some v)) raised)

end Quantity

end UnitCalc

end
