/-
# Functions of many amounts

The arguments of a function of many amounts are brought to the unit of the first, which is also
the unit of the result, or are multiplied one by one.

## Main results

* `Calculator.aligned_ok` and `dimension_of_aligned` say which arguments can be brought together.
* One theorem `Calculator.measures_…` for each function.
-/

import UnitCalc.Proofs.Calculator.Measures

noncomputable section

namespace UnitCalc

/-- Amounts are multiplied together with their dimensions. -/
instance : Mul Amount :=
  ⟨fun a b => ⟨a.value * b.value, a.dimension * b.dimension⟩⟩

/-- The function brings its arguments to one unit. -/
def MultiFunction.aligns : MultiFunction → Bool
  | min | max | sum | average | sumsq | srss => true
  | _ => false

namespace Complex

theorem unscale_ofReal (x k : ℝ) : (ofReal x).unscale k = ofReal (x / k) :=
  Complex.ext rfl (zero_div k)

theorem sum_ofReal (xs : List ℝ) : Complex.sum (xs.map ofReal) = ofReal xs.sum := by
  -- The fold begins with zero, but the induction needs any first number.
  have step : ∀ x, (xs.map ofReal).foldl (· + ·) (ofReal x) = ofReal (x + xs.sum) := by
    induction xs with
    | nil =>
      intro x
      rw [List.sum_nil, add_zero]
      rfl
    | cons y ys ih =>
      intro x
      rw [List.map_cons, List.foldl_cons, add_ofReal, ih, List.sum_cons, add_assoc]
  exact (step 0).trans (congrArg ofReal (zero_add _))

end Complex

namespace Calculator

variable {c : Calculator ℝ} {isComplex : Bool} {first : Quantity ℝ ℝ}
  {args rest : List (Quantity ℝ ℝ)}

/-- The smallest number is the smallest amount, whatever positive unit both are counted in. -/
theorem smallest_ofReal {k : ℝ} (positive : 0 < k) (x : ℝ) (xs : List ℝ) :
    smallest (.ofReal (x / k)) ((xs.map (· / k)).map .ofReal) = .ofReal (xs.foldl min x / k) := by
  rw [smallest, List.map_map, List.foldl_map]
  -- Dividing by a positive unit commutes with each step of the fold.
  apply List.foldl_hom fun m => Complex.ofReal (m / k)
  intro a b
  rw [← min_div_div_right positive.le, min_def, apply_ite Complex.ofReal]
  rfl

theorem largest_ofReal {k : ℝ} (positive : 0 < k) (x : ℝ) (xs : List ℝ) :
    largest (.ofReal (x / k)) ((xs.map (· / k)).map .ofReal) = .ofReal (xs.foldl max x / k) := by
  rw [largest, List.map_map, List.foldl_map]
  apply List.foldl_hom fun m => Complex.ofReal (m / k)
  intro a b
  rw [← max_div_div_right positive.le, max_def, apply_ite Complex.ofReal]
  rfl

/-- The amounts of the arguments. -/
def values (args : List (Quantity ℝ ℝ)) : List ℝ :=
  args.map fun q => q.amount.value

/-- Arguments of one dimension are brought to the unit of the first. -/
theorem aligned_ok (positive : 0 < unitFactor first.unit) (measured : ∀ q ∈ args, q.IsMeasured)
    (same : ∀ q ∈ args, unitDimension q.unit = unitDimension first.unit) :
    aligned first args =
      .ok (((values args).map (· / unitFactor first.unit)).map .ofReal) := by
  unfold aligned
  -- The induction is on the arguments; each one is converted by itself.
  induction args with
  | nil => rfl
  | cons q rest ih =>
    rw [List.forall_mem_cons] at measured same
    have number : q.num.scale (unitFactor q.unit / unitFactor first.unit) =
        .ofReal (q.amount.value / unitFactor first.unit) := by
      rw [measured.1.num_eq, Complex.scale_ofReal, q.amount_value, mul_div_assoc]
    rw [List.mapM_cons, Quantity.sumUnit_ok positive same.1.symm, ih measured.2 same.2]
    exact congrArg (fun z => Except.ok (z :: _)) number

theorem sum_map_div (xs : List ℝ) (k : ℝ) : (xs.map (· / k)).sum = xs.sum / k := by
  simp only [div_eq_mul_inv, List.sum_map_mul_right, List.map_id']

/-- Squares are summed in either mode. -/
theorem sum_squares (isComplex : Bool) (xs : List ℝ) (k : ℝ) :
    Complex.sum (((xs.map (· / k)).map .ofReal).map fun x => (Kernel.ofMode isComplex).mul x x) =
      .ofReal ((xs.map (· ^ 2)).sum / k ^ 2) := by
  have squares : (((xs.map (· / k)).map .ofReal).map fun x => (Kernel.ofMode isComplex).mul x x) =
      ((xs.map (· ^ 2)).map (· / k ^ 2)).map .ofReal := by
    simp only [List.map_map]
    apply List.map_congr_left
    intro x _
    show (Kernel.ofMode isComplex).mul (.ofReal (x / k)) (.ofReal (x / k)) = .ofReal (x ^ 2 / k ^ 2)
    rw [Kernel.mul_ofMode, ← div_pow, sq]
  rw [squares, Complex.sum_ofReal, sum_map_div]

/-- Nothing else is brought together. -/
theorem dimension_of_aligned {nums : List (Complex ℝ)} (ok : aligned first args = .ok nums) :
    ∀ q ∈ args, unitDimension q.unit = unitDimension first.unit := by
  induction args generalizing nums with
  | nil => exact fun q within => absurd within List.not_mem_nil
  | cons q rest ih =>
    rw [aligned, List.mapM_cons] at ok
    -- The first argument that does not fit would have stopped the conversion.
    have same : unitDimension first.unit = unitDimension q.unit := by
      by_contra differ
      obtain ⟨e, error⟩ := Quantity.sumUnit_error differ ';'
      rw [error] at ok
      cases ok
    cases tail : aligned first rest with
    | ok others => exact List.forall_mem_cons.2 ⟨same.symm, ih tail⟩
    | error e =>
      rw [aligned] at tail
      rw [tail] at ok
      cases converted : first.sumUnit q ';' <;> rw [converted] at ok <;> cases ok

section Aligned

variable (measured : ∀ q ∈ first :: rest, q.IsMeasured)
  (same : ∀ q ∈ rest, unitDimension q.unit = unitDimension first.unit)

include measured same

theorem aligned_cons :
    aligned first (first :: rest) =
      .ok (((values (first :: rest)).map (· / unitFactor first.unit)).map .ofReal) :=
  aligned_ok (measured first List.mem_cons_self).positive measured
    (List.forall_mem_cons.2 ⟨rfl, same⟩)

theorem measures_min :
    Measures (c.multiFunction .min (first :: rest))
      ⟨(values rest).foldl min first.amount.value, unitDimension first.unit⟩ := by
  have positive := (measured first List.mem_cons_self).positive
  rw [multiFunction, aligned_cons measured same]
  show Measures (.ok ⟨smallest (.ofReal (first.amount.value / _))
    (((values rest).map (· / unitFactor first.unit)).map .ofReal), _, _⟩) _
  rw [smallest_ofReal positive]
  exact measures_of_unit positive (div_mul_cancel₀ _ positive.ne')

theorem measures_max :
    Measures (c.multiFunction .max (first :: rest))
      ⟨(values rest).foldl max first.amount.value, unitDimension first.unit⟩ := by
  have positive := (measured first List.mem_cons_self).positive
  rw [multiFunction, aligned_cons measured same]
  show Measures (.ok ⟨largest (.ofReal (first.amount.value / _))
    (((values rest).map (· / unitFactor first.unit)).map .ofReal), _, _⟩) _
  rw [largest_ofReal positive]
  exact measures_of_unit positive (div_mul_cancel₀ _ positive.ne')

theorem measures_sum :
    Measures (c.multiFunction .sum (first :: rest))
      ⟨(values (first :: rest)).sum, unitDimension first.unit⟩ := by
  have positive := (measured first List.mem_cons_self).positive
  rw [multiFunction, aligned_cons measured same]
  show Measures (.ok ⟨Complex.sum (List.map .ofReal _), _, _⟩) _
  rw [Complex.sum_ofReal, sum_map_div]
  exact measures_of_unit positive (div_mul_cancel₀ _ positive.ne')

theorem measures_average :
    Measures (c.multiFunction .average (first :: rest))
      ⟨(values (first :: rest)).sum / (values (first :: rest)).length,
        unitDimension first.unit⟩ := by
  have positive := (measured first List.mem_cons_self).positive
  have count : (values (first :: rest)).length = (first :: rest).length := List.length_map _
  rw [multiFunction, aligned_cons measured same]
  show Measures (.ok ⟨(Complex.sum (List.map .ofReal _)).unscale _, _, _⟩) _
  rw [Complex.sum_ofReal, sum_map_div, Complex.unscale_ofReal, div_right_comm, count]
  exact measures_of_unit positive (div_mul_cancel₀ _ positive.ne')

variable (mode : c.kernel = .ofMode isComplex)

include mode

/-- The sum of the squares has the square of the unit. -/
theorem measures_sumsq :
    Measures (c.multiFunction .sumsq (first :: rest))
      ⟨((values (first :: rest)).map (· ^ 2)).sum, (unitDimension first.unit).pow 2⟩ := by
  have positive := (measured first List.mem_cons_self).positive
  have nonzero : unitFactor first.unit ^ 2 ≠ 0 := pow_ne_zero 2 positive.ne'
  have two : (1 + 1 : ℝ) = 2 := one_add_one_eq_two
  have measures := (counts_map_pow positive 2).measures
    (((values (first :: rest)).map (· ^ 2)).sum / unitFactor first.unit ^ 2) false
  rw [multiFunction, aligned_cons measured same, mode]
  show Measures (.ok ⟨Complex.sum (List.map _ (List.map Complex.ofReal _)),
    first.unit.map (·.pow (1 + 1)), _⟩) _
  rw [sum_squares, two]
  rwa [mul_one, Real.rpow_two, div_mul_cancel₀ _ nonzero] at measures

/-- The square root of the sum of the squares has the unit itself. -/
theorem measures_srss {y : ℝ} (root : IsRoot 2 ((values (first :: rest)).map (· ^ 2)).sum y) :
    Measures (c.multiFunction .srss (first :: rest)) ⟨y, unitDimension first.unit⟩ := by
  have positive := (measured first List.mem_cons_self).positive
  obtain ⟨square, nonnegative | odd⟩ := root
  -- The square of the unit and the square root cancel each other.
  · have half : (0.5 : ℝ) = 1 / 2 := by norm_num
    have root : (((values (first :: rest)).map (· ^ 2)).sum / unitFactor first.unit ^ 2) ^
        (1 / 2 : ℝ) = y / unitFactor first.unit := by
      rw [← square, ← div_pow, ← Real.sqrt_eq_rpow, Real.sqrt_sq (by positivity)]
    rw [multiFunction, aligned_cons measured same, mode]
    show Measures (.ok ⟨(Kernel.ofMode isComplex).pow
      (Complex.sum (List.map _ (List.map Complex.ofReal _))) (.ofReal 0.5), _, _⟩) _
    rw [sum_squares, Kernel.pow_ofMode _ (.inl (by rw [← square]; positivity)), half, root]
    exact measures_of_unit positive (div_mul_cancel₀ _ positive.ne')
  · exact absurd odd (by decide)

end Aligned

/-- Functions that bring their arguments to one unit succeed when all have the dimension of the
first. -/
theorem multiFunction_succeeds_iff {f : MultiFunction} (aligns : f.aligns)
    (measured : ∀ q ∈ first :: rest, q.IsMeasured) :
    (∃ q, c.multiFunction f (first :: rest) = .ok q) ↔
      ∀ q ∈ rest, unitDimension q.unit = unitDimension first.unit := by
  -- The function only computes with the numbers that were brought together.
  have result : ∃ g : List (Complex ℝ) → Quantity ℝ ℝ,
      c.multiFunction f (first :: rest) = (aligned first (first :: rest)).map g := by
    cases f with
    | min | max | sum | average | sumsq | srss => exact ⟨_, rfl⟩
    | _ => cases aligns
  obtain ⟨g, result⟩ := result
  rw [result]
  constructor
  · rintro ⟨q, ok⟩
    cases nums : aligned first (first :: rest) with
    | error e => rw [nums] at ok; cases ok
    | ok zs => exact fun q within => dimension_of_aligned nums q (List.mem_cons_of_mem first within)
  · intro same
    rw [aligned_cons measured same]
    exact ⟨_, rfl⟩

/-- Arguments are multiplied one by one. -/
theorem measures_product (mode : c.kernel = .ofMode isComplex)
    (measured : ∀ q ∈ first :: rest, q.IsMeasured) :
    Measures (c.product first rest) ((rest.map Quantity.amount).foldl (· * ·) first.amount) := by
  rw [List.forall_mem_cons] at measured
  rw [product]
  induction rest generalizing first with
  | nil => exact ⟨first, rfl, measured.1, rfl⟩
  | cons q rest ih =>
    -- The invariant of the fold: what is multiplied so far is measured.
    rw [List.forall_mem_cons] at measured
    obtain ⟨p, ok, measuredProduct, amount⟩ := measures_multiply measured.1 measured.2.1 mode
    rw [List.foldlM_cons, ok, List.map_cons, List.foldl_cons]
    have start : first.amount * q.amount = p.amount := amount.symm
    rw [start]
    exact ih ⟨measuredProduct, measured.2.2⟩

/-- The root of the product with the number of arguments as index. -/
theorem measures_mean (mode : c.kernel = .ofMode isComplex)
    (measured : ∀ q ∈ first :: rest, q.IsMeasured) {m : Amount} {y : ℝ}
    (total : (rest.map Quantity.amount).foldl (· * ·) first.amount = m)
    (root : IsRoot (rest.length + 1) m.value y) :
    Measures (c.multiFunction .mean (first :: rest))
      ⟨y, m.dimension.pow (1 / (rest.length + 1 : ℕ))⟩ := by
  obtain ⟨p, ok, measured, amount⟩ := measures_product mode measured
  have m_eq : m = p.amount := total.symm.trans amount.symm
  subst m_eq
  rw [p.amount_value] at root
  rw [multiFunction, ok, mode]
  show Measures (.ok ⟨(Kernel.ofMode isComplex).root p.num (rest.length + 1 : ℕ), _, _⟩) _
  rw [measured.num_eq, Kernel.root_ofMode _ (nonneg_or_odd measured.positive root)]
  exact measures_rooted (Nat.succ_ne_zero _) measured.positive root

end Calculator

end UnitCalc

end
