/-
# Slopes of polynomials in exact arithmetic

The difference quotient of a polynomial whose degree is at most four differs from the derivative by
a multiple of the square of the step. The first extrapolation removes this error, so the second row
of the table ends with the derivative, and all further entries are the same. The estimate is
accepted with the third row at the latest.

Exact arithmetic leaves open what an undefined number is, what a quotient by zero is and how far the
next number is. Nothing is divided by zero here, and the result is never the undefined number,
because neither what these are nor the size of the first step matter.

## Main definitions

* `Conventions`: what exact arithmetic leaves open, and `Conventions.slope` the slope under them.
* `slopeRow`: the row of a level for a polynomial.
* `Problem.slopePoints`: the points of a number of levels.

## Main results

* `Conventions.slopeFrom_scalar`: the table of no objective divides by zero.
* `nextRow_slopeRow`: what a level keeps.
* `Problem.reaches_slopeFrom`: the levels for a polynomial.
* `Conventions.slope_polynomial`: the slope is the derivative.
-/

import Mathlib.Algebra.Polynomial.Taylor
import UnitCalc.Method.Slope
import UnitCalc.Proofs.Method.Computed

namespace UnitCalc

open SessionM (outcome)
open Polynomial (X)
open Set (Icc)
open Extrapolation (refine nextRow best)

/-! ## A level of the table -/

namespace Problem

section

variable {R E : Type} {m : Type → Type} [Scalar R] [Monad m] [MonadExceptOf CalcError m]

/-- What is left to do behind the row of a level. -/
def slopeBehind (p : Problem R E m) (x tolerance : R) (levels : Nat) (step : R)
    (row next : List R) (error : R) : MethodM R E m (R × R) :=
  if row.isEmpty then p.slopeFrom x tolerance levels (2.0 * step / 2.0 / 2.0) next error
  else
    let error := slopeError tolerance (best row) (best next)
    if error < tolerance then return (best next, error)
    else p.slopeFrom x tolerance levels (2.0 * step / 2.0 / 2.0) next error

theorem slopeFrom_succ (p : Problem R E m) (x tolerance : R) (levels : Nat) (step : R)
    (row : List R) (error : R) :
    p.slopeFrom x tolerance (levels + 1) step row error =
      p.value (x - step + 2.0 * step) >>= fun upper => p.value (x - step) >>= fun lower =>
        p.slopeBehind x tolerance levels step row (nextRow ((upper - lower) / (2.0 * step)) row)
          error :=
  rfl

end

end Problem

noncomputable section

theorem refine_cons (weight newest old : ℝ) (rest : List ℝ) :
    refine weight newest (old :: rest) =
      (newest + (newest - old) / (weight * 4.0 - 1)) ::
        refine (weight * 4.0) (newest + (newest - old) / (weight * 4.0 - 1)) rest :=
  rfl

/-! ## What exact arithmetic leaves open -/

/-- An undefined number, the quotients by zero, and the distances to the next larger number. -/
structure Conventions where
  undefined : ℝ
  byZero : ℝ → ℝ
  spacing : ℝ → ℝ

namespace Conventions

variable (c : Conventions)

/-- Real numbers as scalars under these conventions. -/
@[reducible]
def scalar : Scalar ℝ where
  __ := (inferInstance : Scalar ℝ)
  div a b := if b = 0 then c.byZero a else a / b
  nan := c.undefined
  spacing := c.spacing

/-- The slope under these conventions. -/
def slope {E : Type} [Exponent E] [Narrowing ℝ E] (p : Problem ℝ E SessionM) (x : ℝ) :
    MethodM ℝ E SessionM ℝ :=
  letI := c.scalar
  p.slope x

/-- The first step under these conventions. -/
def slopeStep (x : ℝ) : ℝ :=
  letI := c.scalar
  Problem.slopeStep x

/-- Repeated squaring computes powers. -/
theorem powNat_scalar (a : ℝ) (n : ℕ) : @Scalar.powNat ℝ c.scalar a n = a ^ n := by
  have go (r : ℝ) : @Scalar.powNat.go ℝ c.scalar a n r = r * a ^ n := by
    induction n using Nat.strong_induction_on generalizing a r with
    | _ n ih =>
      rw [@Scalar.powNat.go.eq_def ℝ c.scalar]
      by_cases positive : 0 < n
      · rw [dif_pos positive]
        have parity : (if n % 2 == 1 then r * a else r) * (a * a) ^ (n / 2) = r * a ^ n := by
          rw [← pow_two, ← pow_mul]
          rcases Nat.mod_two_eq_zero_or_one n with even | odd
          · have whole : 2 * (n / 2) = n := by omega
            rw [if_neg (by simp [even]), whole]
          · have whole : n = 2 * (n / 2) + 1 := by omega
            rw [if_pos (by simp [odd]), mul_assoc, ← pow_succ', ← whole]
        by_cases last : n / 2 = 0
        · rw [last, pow_zero, mul_one] at parity
          exact (if_pos (beq_iff_eq.2 last)).trans parity
        · have rest := ih (n / 2) (by omega) (a * a) (if n % 2 == 1 then r * a else r)
          exact (if_neg (mt beq_iff_eq.1 last)).trans (rest.trans parity)
      · have zero : n = 0 := by omega
        rw [dif_neg positive, zero, pow_zero, mul_one]
  exact (go 1).trans (one_mul _)

/-- Every positive number is the first step under some conventions. -/
theorem exists_slopeStep_eq (undefined : ℝ) (byZero : ℝ → ℝ) {step : ℝ} (positive : 0 < step) :
    ∃ spacing, ∀ x, (Conventions.mk undefined byZero spacing).slopeStep x = step := by
  refine ⟨fun _ => (step / 128) ^ 3, fun x => ?_⟩
  set c := Conventions.mk undefined byZero fun _ => (step / 128) ^ 3
  have root : step / 128 = rootOf (3 : ℕ) ((step / 128) ^ 3) :=
    IsRoot.eq_rootOf three_ne_zero ⟨rfl, .inl (div_pos positive (by norm_num)).le⟩
  calc c.slopeStep x
    _ = @Scalar.powNat ℝ c.scalar 2.0 7 * rootOf (3 : ℕ) ((step / 128) ^ 3) := rfl
    _ = step := by
      rw [c.powNat_scalar, ← root]
      norm_num

theorem div_scalar (a : ℝ) {b : ℝ} (nonzero : b ≠ 0) : c.scalar.div a b = a / b :=
  if_neg nonzero

/-- The extrapolation divides by numbers that are not zero. -/
theorem refine_scalar {weight : ℝ} (large : 1 ≤ weight) (newest : ℝ) (row : List ℝ) :
    @refine ℝ c.scalar weight newest row = refine weight newest row := by
  induction row generalizing weight newest with
  | nil => rfl
  | cons old rest ih =>
    have four : (4.0 : ℝ) = 4 := by norm_num
    have grown : 1 ≤ weight * 4.0 := by
      rw [four]
      linarith
    have nonzero : weight * 4.0 - 1 ≠ 0 := by
      rw [four]
      linarith
    -- the same row, with the division of these conventions
    have opened : @refine ℝ c.scalar weight newest (old :: rest) =
        (newest + c.scalar.div (newest - old) (weight * 4.0 - 1)) ::
          @refine ℝ c.scalar (weight * 4.0)
            (newest + c.scalar.div (newest - old) (weight * 4.0 - 1)) rest := rfl
    rw [opened, c.div_scalar _ nonzero, ih grown, refine_cons]

variable {E : Type} {p : Problem ℝ E SessionM} {x tolerance step : ℝ}

theorem slopeError_scalar (nonnegative : 0 ≤ tolerance) (old new : ℝ) :
    @Problem.slopeError ℝ c.scalar tolerance old new = Problem.slopeError tolerance old new := by
  have opened : @Problem.slopeError ℝ c.scalar tolerance old new =
      if |new| ≤ tolerance then |new - old| else |c.scalar.div (new - old) new| := rfl
  rw [opened]
  by_cases small : |new| ≤ tolerance
  · rw [if_pos small]
    exact (if_pos small).symm
  · have nonzero : new ≠ 0 := by
      rintro rfl
      rw [abs_zero] at small
      exact small nonnegative
    rw [if_neg small, c.div_scalar _ nonzero]
    exact (if_neg small).symm

/-- The steps are halved, so they never vanish. -/
theorem slopeFrom_scalar (nonnegative : 0 ≤ tolerance) (levels : ℕ) (positive : 0 < step)
    (row : List ℝ) (error : ℝ) :
    @Problem.slopeFrom ℝ E c.scalar SessionM _ _ p x tolerance levels step row error =
      p.slopeFrom x tolerance levels step row error := by
  induction levels generalizing step row error with
  | zero => rfl
  | succ levels ih =>
    have two : (2.0 : ℝ) = 2 := by norm_num
    have width : 2.0 * step ≠ 0 := by
      rw [two]
      linarith
    have half : 0 < 2.0 * step / 2.0 / 2.0 := by
      rw [two]
      linarith
    have halved : c.scalar.div (c.scalar.div (2.0 * step) 2.0) 2.0 = 2.0 * step / 2.0 / 2.0 := by
      rw [c.div_scalar _ (by norm_num), c.div_scalar _ (by norm_num)]
    have behind (next : List ℝ) :
        @Problem.slopeBehind ℝ E SessionM c.scalar _ _ p x tolerance levels step row next error =
          p.slopeBehind x tolerance levels step row next error := by
      have opened :
          @Problem.slopeBehind ℝ E SessionM c.scalar _ _ p x tolerance levels step row next error =
            if row.isEmpty then @Problem.slopeFrom ℝ E c.scalar SessionM _ _ p x tolerance levels
              (c.scalar.div (c.scalar.div (2.0 * step) 2.0) 2.0) next error
            else if @Problem.slopeError ℝ c.scalar tolerance (best row) (best next) < tolerance then
              pure (best next,
                @Problem.slopeError ℝ c.scalar tolerance (best row) (best next))
            else @Problem.slopeFrom ℝ E c.scalar SessionM _ _ p x tolerance levels
              (c.scalar.div (c.scalar.div (2.0 * step) 2.0) 2.0) next
              (@Problem.slopeError ℝ c.scalar tolerance (best row) (best next)) := rfl
      rw [opened, halved, c.slopeError_scalar nonnegative, ih half, ih half]
      rfl
    have next (upper lower : ℝ) :
        @nextRow ℝ c.scalar (c.scalar.div (upper - lower) (2.0 * step)) row =
          nextRow ((upper - lower) / (2.0 * step)) row := by
      rw [c.div_scalar _ width]
      exact congrArg (_ :: ·) (c.refine_scalar le_rfl _ row)
    rw [p.slopeFrom_succ]
    refine bind_congr fun upper => bind_congr fun lower => ?_
    rw [← next, ← behind]
    rfl

end Conventions

/-! ## The table of a polynomial -/

/-- The difference quotient of a polynomial whose degree is at most four differs from its derivative
by a multiple of the square of the step. -/
theorem difference_polynomial {P : Polynomial ℝ} (degree : P.natDegree ≤ 4) (x : ℝ) {h : ℝ}
    (nonzero : h ≠ 0) :
    (P.eval (x + h) - P.eval (x - h)) / (2 * h) =
      P.derivative.eval x + (P.taylor x).coeff 3 * h ^ 2 := by
  have expanded (t : ℝ) : P.eval (x + t) = ∑ n ∈ Finset.range 5, (P.taylor x).coeff n * t ^ n := by
    rw [add_comm, ← Polynomial.taylor_eval]
    apply Polynomial.eval_eq_sum_range'
    rw [Polynomial.natDegree_taylor]
    omega
  rw [sub_eq_add_neg x, expanded, expanded, ← Polynomial.taylor_coeff_one]
  simp only [Finset.sum_range_succ, Finset.sum_range_zero]
  field_simp
  ring

/-- The row of a level for a polynomial: its difference quotient, and the derivative behind it. -/
def slopeRow (P : Polynomial ℝ) (x step : ℝ) (n : ℕ) : List ℝ :=
  (P.derivative.eval x + (P.taylor x).coeff 3 * step ^ 2) :: List.replicate n (P.derivative.eval x)

/-- Entries that agree are not changed any more. -/
theorem refine_replicate {weight : ℝ} (derivative : ℝ) (n : ℕ) :
    refine weight derivative (List.replicate n derivative) = List.replicate n derivative := by
  induction n generalizing weight with
  | zero => rfl
  | succ n ih =>
    have same : derivative + (derivative - derivative) / (weight * 4.0 - 1) = derivative := by
      rw [sub_self, zero_div, add_zero]
    rw [List.replicate_succ, refine_cons, same, ih]

/-- The next row for half the step. The first extrapolation removes the error. -/
theorem nextRow_slopeRow (P : Polynomial ℝ) (x step : ℝ) (n : ℕ) :
    nextRow (P.derivative.eval x + (P.taylor x).coeff 3 * (step / 2) ^ 2) (slopeRow P x step n) =
      slopeRow P x (step / 2) (n + 1) := by
  have removed (d e : ℝ) :
      d + e * (step / 2) ^ 2 + (d + e * (step / 2) ^ 2 - (d + e * step ^ 2)) / (1 * 4.0 - 1) =
        d := by
    norm_num
    ring
  unfold slopeRow nextRow
  rw [refine_cons, removed, refine_replicate, List.replicate_succ]

theorem best_slopeRow (P : Polynomial ℝ) (x step : ℝ) (n : ℕ) :
    best (slopeRow P x step (n + 1)) = P.derivative.eval x := by
  unfold best slopeRow
  rw [List.getLastD_cons, List.getLastD_eq_getLast?, List.getLast?_replicate]
  rfl

/-! ## The levels -/

namespace Problem

/-- The points of a number of levels, the upper one of each level first. -/
def slopePoints (x : ℝ) : ℕ → ℝ → List ℝ
  | 0, _ => []
  | n + 1, step => (x + step) :: (x - step) :: slopePoints x n (step / 2)

variable {E : Type} {p : Problem ℝ E SessionM} {points : Set ℝ} {P : Polynomial ℝ}
  {x tolerance step error : ℝ}

/-- A level evaluates a polynomial at both sides of the point. -/
theorem reaches_slopeFrom_succ (degree : P.natDegree ≤ 4) (positive : 0 < step)
    (within : Icc (x - step) (x + step) ⊆ points) (tolerance : ℝ) (levels : ℕ) (row : List ℝ)
    (error : ℝ) :
    p.Reaches P.eval points (p.slopeFrom x tolerance (levels + 1) step row error)
      [x + step, x - step]
      (p.slopeBehind x tolerance levels step row
        (nextRow (P.derivative.eval x + (P.taylor x).coeff 3 * step ^ 2) row) error) := by
  have lower : x - step ∈ points := within (Set.left_mem_Icc.2 (by linarith))
  have upper : x + step ∈ points := within (Set.right_mem_Icc.2 (by linarith))
  have two : (2.0 : ℝ) = 2 := by norm_num
  have above : x - step + 2.0 * step = x + step := by
    rw [two]
    ring
  rw [slopeFrom_succ, ← difference_polynomial degree x positive.ne', ← two]
  show p.Reaches P.eval points _ ([x + step] ++ [x - step]) _
  rw [← above] at upper ⊢
  refine ((reaches_value upper).bind _).trans ?_
  exact (reaches_value lower).bind _

theorem slopeBehind_cons (p : Problem ℝ E SessionM) (x tolerance : ℝ) (levels : ℕ)
    (step first : ℝ) (row next : List ℝ) (error : ℝ) :
    p.slopeBehind x tolerance levels step (first :: row) next error =
      if slopeError tolerance (best (first :: row)) (best next) < tolerance then
        pure (best next, slopeError tolerance (best (first :: row)) (best next))
      else p.slopeFrom x tolerance levels (2.0 * step / 2.0 / 2.0) next
        (slopeError tolerance (best (first :: row)) (best next)) :=
  rfl

/-- An estimate that does not change has no error. -/
theorem slopeError_self (tolerance estimate : ℝ) : slopeError tolerance estimate estimate = 0 := by
  have opened : slopeError tolerance estimate estimate =
      if |estimate| ≤ tolerance then |estimate - estimate|
      else |(estimate - estimate) / estimate| := rfl
  rw [opened, sub_self, zero_div, abs_zero, ite_self]

theorem halved_step (step : ℝ) : 2.0 * step / 2.0 / 2.0 = step / 2 := by
  norm_num

/-- The first level has nothing to compare its row with. -/
theorem reaches_slopeFrom_first (degree : P.natDegree ≤ 4) (positive : 0 < step)
    (within : Icc (x - step) (x + step) ⊆ points) (tolerance : ℝ) (levels : ℕ) (error : ℝ) :
    p.Reaches P.eval points (p.slopeFrom x tolerance (levels + 1) step [] error)
      [x + step, x - step]
      (p.slopeFrom x tolerance levels (step / 2) (slopeRow P x step 0) error) := by
  rw [← halved_step]
  exact reaches_slopeFrom_succ degree positive within tolerance levels [] error

/-- From the second level on, the estimate is the derivative. -/
theorem reaches_slopeFrom_next (degree : P.natDegree ≤ 4) (positive : 0 < step)
    (within : Icc (x - step / 2) (x + step / 2) ⊆ points) (tolerance : ℝ) (n levels : ℕ)
    (error : ℝ) :
    let error' := slopeError tolerance (best (slopeRow P x step n)) (P.derivative.eval x)
    p.Reaches P.eval points
      (p.slopeFrom x tolerance (levels + 1) (step / 2) (slopeRow P x step n) error)
      [x + step / 2, x - step / 2]
      (if error' < tolerance then pure (P.derivative.eval x, error')
      else p.slopeFrom x tolerance levels (step / 2 / 2) (slopeRow P x (step / 2) (n + 1))
        error') := by
  intro error'
  have level := reaches_slopeFrom_succ (p := p) degree (half_pos positive) within tolerance levels
    (slopeRow P x step n) error
  rwa [nextRow_slopeRow, slopeRow, slopeBehind_cons, best_slopeRow, halved_step] at level

/-- The estimates of a polynomial settle with the third level at the latest, and they settle at its
derivative. -/
theorem reaches_slopeFrom (degree : P.natDegree ≤ 4) (positive : 0 < step)
    (precise : 0 < tolerance) (within : Icc (x - step) (x + step) ⊆ points) (levels : ℕ)
    (error : ℝ) :
    ∃ n ≤ 3, ∃ error' < tolerance,
      p.Reaches P.eval points (p.slopeFrom x tolerance (levels + 3) step [] error)
        (slopePoints x n step) (pure (P.derivative.eval x, error')) := by
  have narrower {step : ℝ} (positive : 0 < step) :
      Icc (x - step / 2) (x + step / 2) ⊆ Icc (x - step) (x + step) := by
    apply Set.Icc_subset_Icc <;> linarith
  have half : 0 < step / 2 := half_pos positive
  have within' := (narrower positive).trans within
  have first := reaches_slopeFrom_first (p := p) degree positive within tolerance (levels + 2) error
  have second := reaches_slopeFrom_next (p := p) degree positive within' tolerance 0 (levels + 1)
    error
  dsimp only at second
  set error' := slopeError tolerance (best (slopeRow P x step 0)) (P.derivative.eval x)
  by_cases settled : error' < tolerance
  · rw [if_pos settled] at second
    exact ⟨2, by norm_num, error', settled, first.trans second⟩
  -- The estimate of the third level is that of the second one, so it has no error.
  · have third := reaches_slopeFrom_next (p := p) degree half ((narrower half).trans within')
      tolerance 1 levels error'
    dsimp only at third
    rw [best_slopeRow, slopeError_self, if_pos precise] at third
    rw [if_neg settled] at second
    exact ⟨3, le_rfl, 0, precise, first.trans (second.trans third)⟩

end Problem

/-! ## The slope -/

namespace Conventions

variable {E : Type} [Exponent E] [Narrowing ℝ E] {p : Problem ℝ E SessionM} {f : ℝ → ℝ}
  {points : Set ℝ} {P : Polynomial ℝ} {x : ℝ} (c : Conventions)

/-- A slope without a unit is that of the table, unless the table did not settle. -/
theorem reaches_slope {visited : List ℝ} {d error : ℝ} (unitless : p.unit = none)
    (precise : 0 < p.precision) (positive : 0 < c.slopeStep x)
    (table : p.Reaches f points
      (p.slopeFrom x (min √p.precision 1e-3) 7 (c.slopeStep x) []
        (min √p.precision 1e-3 / 2.0)) visited (pure (d, error)))
    (settled : error < min √p.precision 1e-3) :
    p.Reaches f points (c.slope p x) visited (pure d) := by
  have least : @Scalar.least ℝ c.scalar √p.precision 1e-3 = min √p.precision 1e-3 :=
    Scalar.least_eq_min _ _
  have greatest : @Scalar.greatest ℝ c.scalar (50.0 * p.precision) 1e-3 =
      max (50.0 * p.precision) 1e-3 :=
    Scalar.greatest_eq_max _ _
  have opened : c.slope p x =
      (@Problem.slopeFrom ℝ E c.scalar SessionM _ _ p x
          (@Scalar.least ℝ c.scalar √p.precision 1e-3) 7 (c.slopeStep x) []
          (c.scalar.div (@Scalar.least ℝ c.scalar √p.precision 1e-3) 2.0) >>= fun r =>
        pure (if @Scalar.greatest ℝ c.scalar (50.0 * p.precision) 1e-3 < r.2 then c.undefined
          else r.1)) >>= @Problem.withSlopeUnit ℝ E c.scalar SessionM _ _ _ p := rfl
  have tolerance : (0 : ℝ) < min √p.precision 1e-3 :=
    lt_min (Real.sqrt_pos.2 precise) (by norm_num)
  rw [opened, least, greatest, c.div_scalar _ (by norm_num),
    c.slopeFrom_scalar tolerance.le _ positive]
  have accepted : ¬ max (50.0 * p.precision) 1e-3 < error := by
    apply not_lt.2
    calc error
      _ ≤ min √p.precision 1e-3 := settled.le
      _ ≤ 1e-3 := min_le_right _ _
      _ ≤ max (50.0 * p.precision) 1e-3 := le_max_right _ _
  have estimated := table.bind fun r =>
    pure (if max (50.0 * p.precision) 1e-3 < r.2 then c.undefined else r.1)
  dsimp only at estimated
  rw [if_neg accepted] at estimated
  refine (estimated.bind _).trans_nil ?_
  intro u s computes
  refine ⟨u, s, [], ?_, .nil s, rfl, computes⟩
  unfold Problem.withSlopeUnit
  rw [unitless]
  rfl

/-- The slope of a polynomial whose degree is at most four is its derivative, found with the third
level at the latest, whatever the first step is. It has nothing to do with what an undefined number
is, or a quotient by zero. -/
theorem slope_polynomial (degree : P.natDegree ≤ 4) (unitless : p.unit = none)
    (precise : 0 < p.precision) {step : ℝ} (starts : c.slopeStep x = step) (positive : 0 < step)
    {s : Session} (computes : p.ComputesOn P.eval (Icc (x - step) (x + step)) s)
    (u : Option (MeasureUnit ℝ E)) :
    ∃ n u' s' log, n ≤ 3 ∧
      outcome ((c.slope p x).run u) s = (.ok (P.derivative.eval x, u'), s') ∧
      p.Probes s log s' ∧ log.map Prod.fst = Problem.slopePoints x n step := by
  subst starts
  have tolerance : (0 : ℝ) < min √p.precision 1e-3 :=
    lt_min (Real.sqrt_pos.2 precise) (by norm_num)
  obtain ⟨n, few, error, settled, table⟩ :=
    Problem.reaches_slopeFrom degree positive tolerance subset_rfl 4 (min √p.precision 1e-3 / 2.0)
  have slope := c.reaches_slope unitless precise positive table settled
  obtain ⟨u', s', log, ended, probes, visited⟩ := slope.exists_outcome computes u
  exact ⟨n, u', s', log, few, ended, probes, visited⟩

/-- The slope of the fourth power at one, from the step two. -/
theorem slope_fourth_power :
    let power := (X ^ 4 : Polynomial ℝ).eval
    ∃ c : Conventions, c.slopeStep 1 = 2 ∧
      (Problem.ofFunction power (1 / 100)).ComputesOn power (Icc (1 - 2) (1 + 2))
        (.start {} ⟨1, 1⟩) ∧
      ∃ u' s', outcome ((c.slope (Problem.ofFunction power (1 / 100)) 1).run none)
        (.start {} ⟨1, 1⟩) = (.ok (4, u'), s') := by
  intro power
  obtain ⟨spacing, starts⟩ := exists_slopeStep_eq 0 id two_pos
  have computes := Problem.computesOn_ofFunction power (1 / 100) (Icc (1 - 2) (1 + 2))
    (.start {} ⟨1, 1⟩)
  have degree : (X ^ 4 : Polynomial ℝ).natDegree ≤ 4 := Polynomial.natDegree_X_pow_le 4
  have precise : (0 : ℝ) < 1 / 100 := by norm_num
  have derivative : (X ^ 4 : Polynomial ℝ).derivative.eval 1 = 4 := by
    norm_num
  obtain ⟨n, u', s', log, -, ended, -⟩ :=
    slope_polynomial _ degree rfl precise (starts 1) two_pos computes none
  rw [derivative] at ended
  exact ⟨_, starts 1, computes, u', s', ended⟩

end Conventions

end

end UnitCalc
