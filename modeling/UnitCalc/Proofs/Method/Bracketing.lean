/-
# Bracketing searches in exact arithmetic

A bracketing search keeps two ends at which the residuals of its objective have opposite signs. The
residuals that it remembers are scaled down from time to time, but never beyond zero, so they keep
the signs of the true ones. Therefore the next point lies strictly between the ends, by bisection
and by false position alike, whatever made the search change between the two. The search never
leaves its interval, and it ends at the first point that is good enough, or at the hundredth one.

## Main definitions

* `Bracket.next` and `Bracket.isSettled`: the step of a search, and its end.
* `Bracket.after`: the brackets that a search on a function passes through.
* `Bracket.Encloses`: the residuals at the ends have the signs that are remembered, which are
  opposite.

## Main results

* `Bracket.Encloses.nextPoint_mem` and `Bracket.Encloses.next`: what a step keeps.
* `Problem.reaches_after`: the steps of a search.
* `Problem.bracket_encloses`: the whole search.
-/

import Mathlib.Data.List.Range
import Mathlib.Tactic.Positivity
import UnitCalc.Proofs.Method.Computed

namespace UnitCalc

open SessionM (outcome)
open Set (Icc Ioo uIcc)

/-! ## The step of a search -/

section

variable {R E : Type} {m : Type → Type} [Scalar R]

namespace Bracket

/-- Bisection is given up when the objective looks linear. -/
def turned (b : Bracket R) (y : R) : Bracket R :=
  if b.bisecting && b.looksLinear y then { b with bisecting := false } else b

/-- The search ends at the next point, whose residual is `y`. -/
def isSettled (b : Bracket R) (t : Tolerance R) (y : R) : Bool :=
  Scalar.abs y < Scalar.abs t.residual || Scalar.abs (b.nextPoint - b.last) < t.step

/-- The bracket behind the step with a number, which found the residual `y` at the next point. -/
def next (b : Bracket R) (t : Tolerance R) (number : Nat) (y : R) : Bracket R :=
  let c := (b.turned y).narrow b.nextPoint y
  if (number : Int) % t.period == 0 then { c with bisecting := true } else c

theorem exists_turned (b : Bracket R) (y : R) :
    ∃ bisecting, b.turned y = { b with bisecting } := by
  unfold turned
  split
  · exact ⟨false, rfl⟩
  · exact ⟨b.bisecting, rfl⟩

theorem last_turned (b : Bracket R) (y : R) : (b.turned y).last = b.last := by
  obtain ⟨bisecting, turned⟩ := b.exists_turned y
  rw [turned]

theorem last_next (b : Bracket R) (t : Tolerance R) (number : Nat) (y : R) :
    (b.next t number y).last = b.nextPoint := by
  unfold next
  dsimp only
  split <;> exact last_narrow _ _ _

end Bracket

/-- One step of a bracketing search. -/
theorem Problem.bracketFrom_succ [Monad m] [MonadExceptOf CalcError m] (p : Problem R E m)
    (target : R) (t : Tolerance R) (steps : Nat) (b : Bracket R) (residual : R) :
    p.bracketFrom target t (steps + 1) b residual =
      if !b.bisecting && b.isOutside t b.nextPoint then p.found Scalar.nan 1
      else (do
        let y := (← p.value b.nextPoint) - target
        if b.isSettled t y then p.found b.nextPoint (Scalar.abs y)
        else
          let c := b.next t (maxBracketSteps - steps) y
          p.bracketFrom target t steps c (Scalar.abs y)) := by
  rw [bracketFrom]
  refine ite_congr rfl (fun _ => rfl) fun _ => bind_congr fun v => ?_
  have settled : b.isSettled t (v - target) =
      (decide (Scalar.abs (v - target) < Scalar.abs t.residual) ||
        decide (Scalar.abs (b.nextPoint - (b.turned (v - target)).last) < t.step)) := by
    rw [b.last_turned]
    rfl
  simp only [settled]
  rfl

end

/-! ## What a step keeps -/

noncomputable section

variable {f : ℝ → ℝ} {target x y : ℝ} {b : Bracket ℝ} {t : Tolerance ℝ}

theorem signum_beq_iff {a c : ℝ} (nonzero : a ≠ 0) (nonzero' : c ≠ 0) :
    (Scalar.signum a == Scalar.signum c) = true ↔ 0 < a * c := by
  have opened (x : ℝ) : Scalar.signum x = if x < 0 then -1 else 1 := by
    show (if false = true then x else if decide (x < 0) = true then -1 else 1) = _
    simp
  rw [beq_iff_eq, opened, opened]
  rcases lt_or_gt_of_ne nonzero with negative | positive <;>
    rcases lt_or_gt_of_ne nonzero' with negative' | positive'
  · simp [negative, negative', mul_pos_of_neg_of_neg]
  · simp only [negative, positive'.not_gt, if_true, if_false]
    norm_num
    exact (mul_neg_of_neg_of_pos negative positive').le
  · simp only [positive.not_gt, negative', if_true, if_false]
    norm_num
    exact (mul_neg_of_pos_of_neg positive negative').le
  · simp [positive.not_gt, positive'.not_gt, mul_pos positive positive']

namespace Bracket

/-- A residual is scaled down by a positive factor. -/
theorem exists_damped (other new old : ℝ) : ∃ k, 0 < k ∧ damped other new old = other * k := by
  unfold damped
  by_cases small : 1 - new / old ≤ 0
  · refine ⟨1 / 2, by norm_num, (if_pos small).trans ?_⟩
    norm_num
    ring
  · exact ⟨1 - new / old, not_le.1 small, if_neg small⟩

/-- The ends of a bracket are in order, and the residuals that it remembers have the signs of those
of the function there, which are opposite. -/
structure Encloses (b : Bracket ℝ) (f : ℝ → ℝ) (target : ℝ) : Prop where
  ordered : b.left < b.right
  left_sign : 0 < b.leftResidual * (f b.left - target)
  right_sign : 0 < b.rightResidual * (f b.right - target)
  opposite : b.leftResidual * b.rightResidual < 0

/-- The next point lies strictly between the ends. -/
theorem Encloses.nextPoint_mem (encloses : b.Encloses f target) :
    b.nextPoint ∈ Ioo b.left b.right := by
  obtain ⟨ordered, -, -, opposite⟩ := encloses
  have positive : 0 < b.right - b.left := sub_pos.2 ordered
  unfold nextPoint
  by_cases bisecting : b.bisecting = true
  · rw [if_pos bisecting]
    norm_num
    constructor <;> linarith
  -- Both ends are as far from the zero of the secant as their residuals tell, and on other sides.
  · rw [if_neg bisecting]
    have first : 0 < -b.leftResidual * (b.rightResidual - b.leftResidual) := by
      linarith [mul_self_nonneg b.leftResidual]
    have second : 0 < b.rightResidual * (b.rightResidual - b.leftResidual) := by
      linarith [mul_self_nonneg b.rightResidual]
    have nonzero : b.rightResidual - b.leftResidual ≠ 0 := right_ne_zero_of_mul first.ne'
    constructor
    · rw [← sub_pos]
      have distance : (b.left * b.rightResidual - b.leftResidual * b.right) /
          (b.rightResidual - b.leftResidual) - b.left =
          -b.leftResidual / (b.rightResidual - b.leftResidual) * (b.right - b.left) := by
        field_simp
        ring
      rw [distance]
      exact mul_pos (div_pos_iff.2 (mul_pos_iff.1 first)) positive
    · rw [← sub_pos]
      have distance : b.right - (b.left * b.rightResidual - b.leftResidual * b.right) /
          (b.rightResidual - b.leftResidual) =
          b.rightResidual / (b.rightResidual - b.leftResidual) * (b.right - b.left) := by
        field_simp
        ring
      rw [distance]
      exact mul_pos (div_pos_iff.2 (mul_pos_iff.1 second)) positive

/-- A search on a function does not leave its interval. -/
theorem Encloses.isOutside_eq (encloses : b.Encloses f target) (wide : 0 ≤ t.step) :
    b.isOutside t b.nextPoint = false := by
  obtain ⟨above, below⟩ := encloses.nextPoint_mem
  unfold isOutside
  rw [Bool.or_eq_false_iff, decide_eq_false_iff_not, decide_eq_false_iff_not]
  constructor <;> linarith

/-- The way of the next step does not matter. -/
theorem Encloses.switch (encloses : b.Encloses f target) (bisecting : Bool) :
    ({ b with bisecting } : Bracket ℝ).Encloses f target :=
  ⟨encloses.ordered, encloses.left_sign, encloses.right_sign, encloses.opposite⟩

/-- A point whose residual has the sign of the left one takes the place of the left end. -/
theorem exists_narrow_left (same : Scalar.signum b.leftResidual == Scalar.signum y) :
    ∃ k side, 0 < k ∧ b.narrow x y = { b with
      left := x, leftResidual := y, rightResidual := b.rightResidual * k, last := x,
      replaced := side } := by
  unfold Bracket.narrow
  rw [if_pos same]
  by_cases again : b.replaced = some .left
  · obtain ⟨k, positive, scaled⟩ := exists_damped b.rightResidual y b.leftResidual
    rw [if_pos again, scaled]
    exact ⟨k, _, positive, rfl⟩
  · rw [if_neg again]
    exact ⟨1, _, one_pos, by rw [mul_one]⟩

/-- A point whose residual has another sign than the left one takes the place of the right end. -/
theorem exists_narrow_right (other : ¬ Scalar.signum b.leftResidual == Scalar.signum y) :
    ∃ k side, 0 < k ∧ b.narrow x y = { b with
      right := x, rightResidual := y, leftResidual := b.leftResidual * k, last := x,
      replaced := side } := by
  unfold Bracket.narrow
  rw [if_neg other]
  by_cases again : b.replaced = some .right
  · obtain ⟨k, positive, scaled⟩ := exists_damped b.leftResidual y b.rightResidual
    rw [if_pos again, scaled]
    exact ⟨k, _, positive, rfl⟩
  · rw [if_neg again]
    exact ⟨1, _, one_pos, by rw [mul_one]⟩

/-- A point between the ends takes the place of the end on whose side it is. -/
theorem Encloses.narrow (encloses : b.Encloses f target) (inside : x ∈ Ioo b.left b.right)
    (nonzero : f x - target ≠ 0) : (b.narrow x (f x - target)).Encloses f target := by
  obtain ⟨ordered, left_sign, right_sign, opposite⟩ := encloses
  obtain ⟨above, below⟩ := inside
  have square : 0 < (f x - target) * (f x - target) := mul_self_pos.2 nonzero
  have left_nonzero : b.leftResidual ≠ 0 := left_ne_zero_of_mul opposite.ne
  by_cases same : (Scalar.signum b.leftResidual == Scalar.signum (f x - target)) = true
  · obtain ⟨k, side, positive, narrowed⟩ := exists_narrow_left (x := x) same
    have sign : 0 < b.leftResidual * (f x - target) := (signum_beq_iff left_nonzero nonzero).1 same
    rw [narrowed]
    refine ⟨below, square, ?_, ?_⟩
    · show 0 < b.rightResidual * k * (f b.right - target)
      rw [mul_right_comm]
      exact mul_pos right_sign positive
    · show (f x - target) * (b.rightResidual * k) < 0
      rw [← mul_assoc]
      refine mul_neg_of_neg_of_pos ?_ positive
      have product : b.leftResidual * b.leftResidual * ((f x - target) * b.rightResidual) < 0 :=
        calc b.leftResidual * b.leftResidual * ((f x - target) * b.rightResidual)
          _ = b.leftResidual * (f x - target) * (b.leftResidual * b.rightResidual) := by ring
          _ < 0 := mul_neg_of_pos_of_neg sign opposite
      exact neg_of_mul_neg_right product (mul_self_nonneg _)
  · obtain ⟨k, side, positive, narrowed⟩ := exists_narrow_right (x := x) same
    have sign : b.leftResidual * (f x - target) < 0 := by
      rw [signum_beq_iff left_nonzero nonzero, not_lt] at same
      exact same.lt_of_ne (mul_ne_zero left_nonzero nonzero)
    rw [narrowed]
    refine ⟨above, ?_, square, ?_⟩
    · show 0 < b.leftResidual * k * (f b.left - target)
      rw [mul_right_comm]
      exact mul_pos left_sign positive
    · show b.leftResidual * k * (f x - target) < 0
      rw [mul_right_comm]
      exact mul_neg_of_neg_of_pos sign positive

/-- A step keeps the signs at the ends. -/
theorem Encloses.next (encloses : b.Encloses f target)
    (nonzero : f b.nextPoint - target ≠ 0) (number : ℕ) :
    (b.next t number (f b.nextPoint - target)).Encloses f target := by
  obtain ⟨bisecting, turned⟩ := b.exists_turned (f b.nextPoint - target)
  have narrowed := (encloses.switch bisecting).narrow encloses.nextPoint_mem nonzero
  unfold Bracket.next
  rw [turned]
  dsimp only
  split
  · exact narrowed.switch true
  · exact narrowed

/-- One of the ends is replaced by the new point. -/
theorem ends_narrow (b : Bracket ℝ) (x y : ℝ) :
    (b.narrow x y).left = x ∧ (b.narrow x y).right = b.right ∨
      (b.narrow x y).left = b.left ∧ (b.narrow x y).right = x := by
  unfold Bracket.narrow
  split
  · exact .inl ⟨rfl, rfl⟩
  · exact .inr ⟨rfl, rfl⟩

/-- A step stays between the ends. -/
theorem Encloses.ends_next (encloses : b.Encloses f target) (number : ℕ) (y : ℝ) :
    b.left ≤ (b.next t number y).left ∧ (b.next t number y).right ≤ b.right := by
  obtain ⟨above, below⟩ := encloses.nextPoint_mem
  have narrowed (c : Bracket ℝ) (left : c.left = b.left) (right : c.right = b.right) :
      b.left ≤ (c.narrow b.nextPoint y).left ∧ (c.narrow b.nextPoint y).right ≤ b.right := by
    rcases c.ends_narrow b.nextPoint y with ⟨first, second⟩ | ⟨first, second⟩
    · rw [first, second, right]
      exact ⟨above.le, le_rfl⟩
    · rw [first, second, left]
      exact ⟨le_rfl, below.le⟩
  obtain ⟨bisecting, turned⟩ := b.exists_turned y
  have ends := narrowed { b with bisecting } rfl rfl
  unfold Bracket.next
  rw [turned]
  dsimp only
  split <;> exact ends

/-- A search that does not end at the next point did not find a zero there. -/
theorem ne_zero_of_unsettled (precise : 0 < |t.residual|) (unsettled : b.isSettled t y = false) :
    y ≠ 0 := by
  rintro rfl
  have close : Scalar.abs (0 : ℝ) < Scalar.abs t.residual := by
    show |(0 : ℝ)| < |t.residual|
    rwa [abs_zero]
  unfold isSettled at unsettled
  rw [decide_eq_true close] at unsettled
  cases unsettled

/-! ## The brackets of a search -/

/-- The bracket that a search begins with. -/
def first (left right : ℝ) (f : ℝ → ℝ) (target : ℝ) : Bracket ℝ where
  left := left
  right := right
  leftResidual := f left - target
  rightResidual := f right - target
  last := left

/-- The bracket behind a number of steps of a search on a function. -/
def after (b : Bracket ℝ) (t : Tolerance ℝ) (f : ℝ → ℝ) (target : ℝ) : ℕ → Bracket ℝ
  | 0 => b
  | n + 1 =>
    let c := b.after t f target n
    c.next t (n + 1) (f c.nextPoint - target)

/-- The search ends with the step behind this bracket. -/
def Ends (b : Bracket ℝ) (t : Tolerance ℝ) (f : ℝ → ℝ) (target : ℝ) : Prop :=
  b.isSettled t (f b.nextPoint - target) = true

instance (b : Bracket ℝ) (t : Tolerance ℝ) (f : ℝ → ℝ) (target : ℝ) :
    Decidable (b.Ends t f target) :=
  inferInstanceAs (Decidable (_ = true))

/-- The brackets of a search that has not ended keep the signs, and do not leave the interval. -/
theorem Encloses.after (encloses : b.Encloses f target) (precise : 0 < |t.residual|) {n : ℕ}
    (goes : ∀ k < n, ¬ (b.after t f target k).Ends t f target) :
    (b.after t f target n).Encloses f target ∧ b.left ≤ (b.after t f target n).left ∧
      (b.after t f target n).right ≤ b.right := by
  induction n with
  | zero => exact ⟨encloses, le_rfl, le_rfl⟩
  | succ n ih =>
    obtain ⟨kept, left, right⟩ := ih fun k less => goes k (less.trans n.lt_succ_self)
    have unsettled := Bool.eq_false_iff.2 (goes n n.lt_succ_self)
    have nonzero := ne_zero_of_unsettled precise unsettled
    obtain ⟨left', right'⟩ := kept.ends_next (t := t) (n + 1)
      (f (b.after t f target n).nextPoint - target)
    exact ⟨kept.next nonzero (n + 1), left.trans left', right'.trans right⟩

end Bracket

namespace Problem

variable {E : Type} {p : Problem ℝ E SessionM} {points : Set ℝ} {r start stop : ℝ}

theorem reaches_found (p : Problem ℝ E SessionM) (x r : ℝ) :
    p.Reaches f points (p.found x r) [] (pure (x, r)) :=
  fun _ s computes => ⟨p.unit, s, [], rfl, .nil s, rfl, computes⟩

/-- One step of a search on a function, which does not leave the interval. -/
theorem reaches_bracketFrom_succ (encloses : b.Encloses f target) (wide : 0 ≤ t.step)
    (within : Icc b.left b.right ⊆ points) (steps : ℕ) (r : ℝ) :
    p.Reaches f points (p.bracketFrom target t (steps + 1) b r) [b.nextPoint]
      (if b.Ends t f target then p.found b.nextPoint |f b.nextPoint - target|
      else p.bracketFrom target t steps
        (b.next t (maxBracketSteps - steps) (f b.nextPoint - target))
        |f b.nextPoint - target|) := by
  have inside : b.nextPoint ∈ points := within (Set.Ioo_subset_Icc_self encloses.nextPoint_mem)
  have stays : ¬ (!b.bisecting && b.isOutside t b.nextPoint) = true := by
    rw [encloses.isOutside_eq wide, Bool.and_false]
    exact Bool.false_ne_true
  rw [bracketFrom_succ, if_neg stays]
  exact (reaches_value inside).bind _

/-- The steps of a search that has not ended. -/
theorem reaches_after (encloses : b.Encloses f target) (precise : 0 < |t.residual|)
    (wide : 0 ≤ t.step) (within : Icc b.left b.right ⊆ points) (r : ℝ) {n : ℕ}
    (few : n ≤ maxBracketSteps) (goes : ∀ k < n, ¬ (b.after t f target k).Ends t f target) :
    ∃ r', p.Reaches f points (p.bracketFrom target t maxBracketSteps b r)
      ((List.range n).map fun k => (b.after t f target k).nextPoint)
      (p.bracketFrom target t (maxBracketSteps - n) (b.after t f target n) r') := by
  induction n with
  | zero => exact ⟨r, .refl _⟩
  | succ n ih =>
    have before : ∀ k < n, ¬ (b.after t f target k).Ends t f target :=
      fun k less => goes k (less.trans n.lt_succ_self)
    obtain ⟨r', reached⟩ := ih (n.le_succ.trans few) before
    obtain ⟨kept, left, right⟩ := encloses.after precise before
    have step := reaches_bracketFrom_succ (p := p) kept wide
      ((Set.Icc_subset_Icc left right).trans within) (maxBracketSteps - (n + 1)) r'
    have count : maxBracketSteps - (n + 1) + 1 = maxBracketSteps - n := by omega
    have number : maxBracketSteps - (maxBracketSteps - (n + 1)) = n + 1 := by omega
    rw [if_neg (goes n n.lt_succ_self), count, number] at step
    rw [List.range_succ, List.map_append]
    exact ⟨_, reached.trans step⟩

/-- The last step of a search, which has found its answer or is the last one that is allowed. -/
theorem reaches_last (encloses : b.Encloses f target) (wide : 0 ≤ t.step)
    (within : Icc b.left b.right ⊆ points) (steps : ℕ) (r : ℝ)
    (last : b.Ends t f target ∨ steps = 0) :
    p.Reaches f points (p.bracketFrom target t (steps + 1) b r) [b.nextPoint]
      (pure (b.nextPoint, |f b.nextPoint - target|)) := by
  have step := reaches_bracketFrom_succ (p := p) encloses wide within steps r
  refine step.trans_nil ?_
  by_cases settled : b.Ends t f target
  · rw [if_pos settled]
    exact reaches_found p _ _
  · rw [if_neg settled, last.resolve_left settled, bracketFrom, Bracket.last_next]
    exact reaches_found p _ _

/-- The bracket of each step of a search between two bounds. -/
def brackets (p : Problem ℝ E SessionM) (f : ℝ → ℝ) (start stop target : ℝ) : ℕ → Bracket ℝ :=
  (Bracket.first (min start stop) (max start stop) f target).after
    (p.tolerance (min start stop) (max start stop) target) f target

/-- The tolerance for residuals is not zero. It has the sign of a large target. -/
theorem abs_residual_pos (positive : 0 < p.precision) (left right target : ℝ) :
    0 < |(p.tolerance left right target).residual| := by
  have quarter : 0 < p.precision / 4.0 := div_pos positive (by norm_num)
  have opened : (p.tolerance left right target).residual =
      if 1 < |target| then p.precision / 4.0 * target else p.precision / 4.0 := rfl
  rw [opened, abs_pos]
  split
  · next large =>
    apply mul_ne_zero quarter.ne'
    rintro rfl
    rw [abs_zero] at large
    exact large.not_gt one_pos
  · exact quarter.ne'

theorem step_nonneg (positive : 0 < p.precision) {left right : ℝ} (ascending : left ≤ right)
    (target : ℝ) : 0 ≤ (p.tolerance left right target).step :=
  div_nonneg (mul_nonneg positive.le (sub_nonneg.2 ascending)) (by norm_num)

/-- A bracketing search evaluates its objective at both bounds before its steps. -/
theorem reaches_bracket {left right : ℝ} (least : left = min start stop)
    (greatest : right = max start stop) (ends : left ∈ points ∧ right ∈ points)
    (first : p.precision < |f left - target|) (second : p.precision < |f right - target|) :
    p.Reaches f points (p.bracket start stop target) [left, right]
      (p.bracketFrom target (p.tolerance left right target) maxBracketSteps
        (Bracket.first left right f target) 0) := by
  unfold bracket
  rw [Scalar.least_eq_min, Scalar.greatest_eq_max, ← least, ← greatest]
  have far : ¬ Scalar.abs (f left - target) ≤ p.precision := first.not_ge
  have far' : ¬ Scalar.abs (f right - target) ≤ p.precision := second.not_ge
  show p.Reaches f points _ ([left] ++ [right]) _
  refine ((reaches_value ends.1).bind _).trans ?_
  dsimp only
  rw [if_neg far]
  refine ((reaches_value ends.2).bind _).trans_nil ?_
  rw [if_neg far']
  exact .refl _

/-- Of a number of steps, the first one with a property, or the last one. -/
theorem exists_first (Q : ℕ → Prop) (limit : ℕ) :
    ∃ n ≤ limit, (∀ k < n, ¬ Q k) ∧ (Q n ∨ n = limit) := by
  classical
  have some : ∃ n, Q n ∨ n = limit := ⟨limit, .inr rfl⟩
  refine ⟨Nat.find some, Nat.find_min' some (.inr rfl), fun k less holds => ?_, Nat.find_spec some⟩
  exact Nat.find_min some less (.inl holds)

/-- The first bracket of a search between bounds where the residuals have opposite signs. -/
theorem encloses_first (opposite : (f start - target) * (f stop - target) < 0) :
    (Bracket.first (min start stop) (max start stop) f target).Encloses f target := by
  have ascending {left right : ℝ} (less : left < right)
      (signs : (f left - target) * (f right - target) < 0) :
      (Bracket.first left right f target).Encloses f target :=
    ⟨less, mul_self_pos.2 (left_ne_zero_of_mul signs.ne),
      mul_self_pos.2 (right_ne_zero_of_mul signs.ne), signs⟩
  rcases lt_trichotomy start stop with less | rfl | more
  · rw [min_eq_left less.le, max_eq_right less.le]
    exact ascending less opposite
  · exact absurd opposite (mul_self_nonneg _).not_gt
  · rw [min_eq_right more.le, max_eq_left more.le]
    apply ascending more
    rwa [mul_comm]

/-- A search between two bounds where a function is on different sides of the target passes through
brackets with residuals of opposite signs, evaluates the objective strictly between their ends, and
returns the last one of these points with its residual. It makes at most a hundred steps, none of
which leaves the interval. -/
theorem bracket_encloses (positive : 0 < p.precision)
    (opposite : (f start - target) * (f stop - target) < 0)
    (first : p.precision < |f start - target|) (second : p.precision < |f stop - target|)
    {s : Session} (computes : p.ComputesOn f (uIcc start stop) s)
    (u : Option (MeasureUnit ℝ E)) :
    let b := p.brackets f start stop target
    let t := p.tolerance (min start stop) (max start stop) target
    ∃ n u' s' log, n < 100 ∧
      outcome ((p.bracket start stop target).run u) s =
        (.ok (((b n).nextPoint, |f (b n).nextPoint - target|), u'), s') ∧
      p.Probes s log s' ∧ log.length ≤ 102 ∧
      log.map Prod.fst = min start stop :: max start stop ::
        (List.range (n + 1)).map (fun k => (b k).nextPoint) ∧
      (b n).nextPoint ∈ Ioo (min start stop) (max start stop) ∧
      ∀ k ≤ n, (b k).Encloses f target ∧ (b k).nextPoint ∈ Ioo (b k).left (b k).right ∧
        (b k).isOutside t (b k).nextPoint = false ∧
        ∃ r v s₁ log', p.Probes s log' s₁ ∧
          log'.map Prod.fst = min start stop :: max start stop ::
            (List.range k).map (fun k => (b k).nextPoint) ∧
          outcome ((p.bracket start stop target).run u) s =
            outcome ((p.bracketFrom target t (100 - k) (b k) r).run v) s₁ := by
  intro b t
  have precise : 0 < |t.residual| := abs_residual_pos positive _ _ _
  have wide : 0 ≤ t.step := step_nonneg positive min_le_max _
  have encloses := encloses_first opposite
  -- The step that ends the search is the first one that settles, or the hundredth one.
  obtain ⟨n, few, goes, last⟩ := exists_first (fun k => (b k).Ends t f target) 99
  have kept {k : ℕ} (le : k ≤ n) :=
    encloses.after precise fun i less => goes i (less.trans_le le)
  have begins : p.Reaches f (uIcc start stop) (p.bracket start stop target)
      [min start stop, max start stop] (p.bracketFrom target t maxBracketSteps (b 0) 0) := by
    have far : p.precision < |f (min start stop) - target| := by
      rcases min_choice start stop with same | same <;> rwa [same]
    have far' : p.precision < |f (max start stop) - target| := by
      rcases max_choice start stop with same | same <;> rwa [same]
    exact reaches_bracket rfl rfl ⟨Set.left_mem_Icc.2 min_le_max, Set.right_mem_Icc.2 min_le_max⟩
      far far'
  have reached {k : ℕ} (le : k ≤ n) : ∃ r, p.Reaches f (uIcc start stop)
      (p.bracket start stop target)
      (min start stop :: max start stop :: (List.range k).map fun k => (b k).nextPoint)
      (p.bracketFrom target t (100 - k) (b k) r) := by
    obtain ⟨r, steps⟩ := reaches_after (p := p) encloses precise wide subset_rfl 0
      (show k ≤ 100 by omega) fun i less => goes i (less.trans_le le)
    exact ⟨r, begins.trans steps⟩
  obtain ⟨final, left, right⟩ := kept le_rfl
  obtain ⟨r, before⟩ := reached le_rfl
  have ends : p.Reaches f (uIcc start stop) (p.bracketFrom target t (100 - n) (b n) r)
      [(b n).nextPoint] (pure ((b n).nextPoint, |f (b n).nextPoint - target|)) := by
    have count : 100 - n = 99 - n + 1 := by omega
    rw [count]
    apply reaches_last final wide (Set.Icc_subset_Icc left right)
    exact last.imp_right fun all => by rw [all]
  obtain ⟨u', s', log, ended, probes, visited⟩ := (before.trans ends).exists_outcome computes u
  have points : log.map Prod.fst = min start stop :: max start stop ::
      (List.range (n + 1)).map fun k => (b k).nextPoint := by
    rw [visited, List.range_succ, List.map_append]
    rfl
  refine ⟨n, u', s', log, by omega, ended, probes, ?_, points,
    Set.Ioo_subset_Ioo left right final.nextPoint_mem, fun k le => ?_⟩
  · have length := congrArg List.length points
    rw [List.length_map] at length
    rw [length, List.length_cons, List.length_cons, List.length_map, List.length_range]
    omega
  · obtain ⟨sound, -, -⟩ := kept le
    obtain ⟨r, steps⟩ := reached le
    obtain ⟨v, s₁, log', same, probes', visited', -⟩ := steps u s computes
    exact ⟨sound, sound.nextPoint_mem, sound.isOutside_eq wide, r, v, s₁, log', probes', visited',
      same⟩

/-- The search for the point between 0 and 1 where the identity is one half. -/
theorem bracket_encloses_identity :
    (ofFunction id (1 / 100)).ComputesOn id (uIcc 0 1) (.start {} ⟨1, 1⟩) ∧
    ∃ n < 100, ∃ u' s' x,
      outcome (((ofFunction id (1 / 100)).bracket 0 1 (1 / 2)).run none) (.start {} ⟨1, 1⟩) =
        (.ok ((x, |x - 1 / 2|), u'), s') ∧ x ∈ Ioo 0 1 ∧
      ∀ k ≤ n, ((ofFunction id (1 / 100)).brackets id 0 1 (1 / 2) k).Encloses id (1 / 2) := by
  have computes := computesOn_ofFunction id (1 / 100) (uIcc 0 1) (.start {} ⟨1, 1⟩)
  have opposite : (id 0 - 1 / 2 : ℝ) * (id 1 - 1 / 2) < 0 := by norm_num
  have first : (1 / 100 : ℝ) < |id 0 - 1 / 2| := by norm_num
  have second : (1 / 100 : ℝ) < |id 1 - 1 / 2| := by norm_num
  have positive : (0 : ℝ) < 1 / 100 := by norm_num
  obtain ⟨n, u', s', log, few, ended, -, -, -, inside, steps⟩ :=
    bracket_encloses positive opposite first second computes none
  rw [min_eq_left zero_le_one, max_eq_right zero_le_one] at inside
  exact ⟨computes, n, few, u', s', _, ended, inside, fun k le => (steps k le).1⟩

end Problem

end

end UnitCalc
