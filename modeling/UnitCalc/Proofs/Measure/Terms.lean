/-
# What terms amount to

Each term of a unit is a power of what its name stands for, and the terms together are the product
of these powers. Merging terms multiplies the products, dropping terms with exponent zero changes
nothing, and multiplying the exponents raises the product. Exponents are exact in this. Names may
occur in many terms, as those of numbers do, but each of them stands for one amount.

## Main definitions

* `Amount.raised`: a power of an amount.
* `UnitTerm.total`: the product of the powers.
* `UnitTerm.IsFaithful`: each name stands for one positive amount.

## Main results

* `UnitTerm.IsFaithful.total_merge` and `total_foldl_merge`: merging terms multiplies.
* `UnitTerm.total_filter`: dropping terms changes nothing.
* `UnitTerm.IsFaithful.total_map`: scaling exponents raises.
-/

import UnitCalc.Proofs.Calculator.Aligned

noncomputable section

namespace UnitCalc

namespace Dimension

variable (d e : Dimension ℝ) (x y : ℝ)

theorem pow_add : d.pow (x + y) = d.pow x * d.pow y := by
  ext <;> exact mul_add _ _ _

theorem mul_pow : (d * e).pow x = d.pow x * e.pow x := by
  ext <;> exact add_mul _ _ _

theorem pow_pow : (d.pow x).pow y = d.pow (x * y) := by
  ext <;> exact mul_assoc _ _ _

theorem pow_one : d.pow 1 = d := by
  ext <;> exact mul_one _

end Dimension

namespace Amount

/-- Amounts with the plain number one. -/
instance : CommMonoid Amount where
  one := ⟨1, .none⟩
  mul_assoc _ _ _ := Amount.ext (mul_assoc _ _ _) (by ext <;> exact add_assoc _ _ _)
  one_mul _ := Amount.ext (one_mul _) (Dimension.none_mul _)
  mul_one _ := Amount.ext (mul_one _) (Dimension.mul_none _)
  mul_comm _ _ := Amount.ext (mul_comm _ _) (by ext <;> exact add_comm _ _)

variable {m n : Amount} (x y : ℝ)

/-- A power of an amount. -/
def raised (m : Amount) (x : ℝ) : Amount :=
  ⟨m.value ^ x, m.dimension.pow x⟩

theorem raised_add (positive : 0 < m.value) : m.raised (x + y) = m.raised x * m.raised y :=
  Amount.ext (Real.rpow_add positive x y) (m.dimension.pow_add x y)

theorem raised_raised (positive : 0 < m.value) : (m.raised x).raised y = m.raised (x * y) :=
  Amount.ext (Real.rpow_mul positive.le x y).symm (m.dimension.pow_pow x y)

theorem mul_raised (positive : 0 < m.value) (positive' : 0 < n.value) :
    (m * n).raised x = m.raised x * n.raised x :=
  Amount.ext (Real.mul_rpow positive.le positive'.le) (m.dimension.mul_pow n.dimension x)

theorem one_raised : (1 : Amount).raised x = 1 :=
  Amount.ext (Real.one_rpow x) (Dimension.none_pow x)

@[simp]
theorem raised_zero (m : Amount) : m.raised 0 = 1 :=
  Amount.ext (Real.rpow_zero _) m.dimension.pow_zero

@[simp]
theorem raised_one (m : Amount) : m.raised 1 = m :=
  Amount.ext (Real.rpow_one _) m.dimension.pow_one

theorem raised_pos (positive : 0 < m.value) : 0 < (m.raised x).value :=
  Real.rpow_pos_of_pos positive x

end Amount

namespace UnitTerm

variable {R : Type} {amount : TermBase R → Amount} {known : Set (TermBase R)}
  {t : UnitTerm R ℝ} {terms others : List (UnitTerm R ℝ)}

/-- The product of the powers that terms are. -/
def total (amount : TermBase R → Amount) (terms : List (UnitTerm R ℝ)) : Amount :=
  (terms.map fun t => (amount t.base).raised t.exponent).prod

@[simp]
theorem total_nil : total amount [] = 1 :=
  rfl

@[simp]
theorem total_cons :
    total amount (t :: terms) = (amount t.base).raised t.exponent * total amount terms :=
  List.prod_cons

/-- Terms with exponent zero do not count. -/
theorem total_filter (terms : List (UnitTerm R ℝ)) :
    total amount (terms.filter fun t => t.exponent != 0) = total amount terms := by
  induction terms with
  | nil => rfl
  | cons t terms ih =>
    rw [List.filter_cons]
    split_ifs with kept
    · rw [total_cons, total_cons, ih]
    · have zero : t.exponent = 0 := by simpa using kept
      rw [total_cons, zero, Amount.raised_zero, one_mul, ih]

variable [Scalar R]

/-- What is known stands for a positive amount, and for one amount under each name. -/
structure IsFaithful (amount : TermBase R → Amount) (known : Set (TermBase R)) : Prop where
  positive : ∀ b ∈ known, 0 < (amount b).value
  single : ∀ t u : UnitTerm R ℝ, t.base ∈ known → u.base ∈ known → t.name = u.name →
    amount t.base = amount u.base

namespace IsFaithful

variable (faithful : IsFaithful amount known)
include faithful

theorem total_pos (within : ∀ t ∈ terms, t.base ∈ known) : 0 < (total amount terms).value := by
  induction terms with
  | nil => exact one_pos
  | cons t terms ih =>
    rw [List.forall_mem_cons] at within
    rw [total_cons]
    exact mul_pos (Amount.raised_pos _ (faithful.positive _ within.1)) (ih within.2)

/-- Merging a term multiplies by it. -/
theorem total_merge (within : ∀ t ∈ terms, t.base ∈ known) (own : t.base ∈ known) :
    (∀ u ∈ merge terms t, u.base ∈ known) ∧
      total amount (merge terms t) = total amount terms * (amount t.base).raised t.exponent := by
  induction terms with
  | nil => exact ⟨by simpa [merge] using own, by simp [merge]⟩
  | cons u terms ih =>
    rw [List.forall_mem_cons] at within
    rw [merge]
    split_ifs with same
    · have one := faithful.single u t within.1 own (beq_iff_eq.1 same)
      refine ⟨List.forall_mem_cons.2 within, ?_⟩
      rw [total_cons, total_cons, ← one, Amount.raised_add _ _ (faithful.positive _ within.1),
        mul_right_comm]
    · obtain ⟨merged, product⟩ := ih within.2
      refine ⟨List.forall_mem_cons.2 ⟨within.1, merged⟩, ?_⟩
      rw [total_cons, total_cons, product, mul_assoc]

/-- Merging terms multiplies their products. -/
theorem total_foldl_merge (within : ∀ t ∈ terms, t.base ∈ known)
    (within' : ∀ t ∈ others, t.base ∈ known) :
    (∀ t ∈ others.foldl merge terms, t.base ∈ known) ∧
      total amount (others.foldl merge terms) = total amount terms * total amount others := by
  induction others generalizing terms with
  | nil => exact ⟨within, (mul_one _).symm⟩
  | cons t others ih =>
    rw [List.forall_mem_cons] at within'
    obtain ⟨merged, product⟩ := faithful.total_merge within within'.1
    obtain ⟨all, whole⟩ := ih merged within'.2
    refine ⟨all, ?_⟩
    rw [List.foldl_cons, whole, product, total_cons, mul_assoc]

/-- Multiplying the exponents raises the product. -/
theorem total_map {f : ℝ → ℝ} {x : ℝ} (scales : ∀ e, f e = e * x)
    (within : ∀ t ∈ terms, t.base ∈ known) :
    total amount (terms.map fun t => { t with exponent := f t.exponent }) =
      (total amount terms).raised x := by
  induction terms with
  | nil => exact (Amount.one_raised x).symm
  | cons t terms ih =>
    rw [List.forall_mem_cons] at within
    have positive := faithful.positive _ within.1
    rw [List.map_cons, total_cons, total_cons, ih within.2, scales,
      ← Amount.raised_raised _ _ positive,
      Amount.mul_raised x (Amount.raised_pos _ positive) (faithful.total_pos within.2)]

end IsFaithful

end UnitTerm

end UnitCalc

end
