/-
# Arithmetic is physical

In exact arithmetic an operation on real quantities is the operation on their amounts. Whether
it succeeds depends on the dimensions of its operands alone, and for a root also on the index,
which is an integer above one and has to be written without any unit, not even a percent. Where
the real operation is defined the result is a quantity of the amount that it gives. So operands
can be replaced by the same amounts in other units.

## Main definitions

* `Operation` and `Calculator.apply`: the operators and functions as one.
* `Operation.Fits`: the dimensions that the operands of an operation may have.
* `Operation.Yields`: the real operations on amounts, where they are defined.

## Main results

* `Calculator.apply_amounts`.
-/

import UnitCalc.Proofs.Calculator.Aligned

noncomputable section

namespace UnitCalc

/-- The operators and the functions of the calculator. -/
inductive Operation where
  | operator (o : Operator)
  | function (f : Function)
  | binaryFunction (f : BinaryFunction)
  | multiFunction (f : MultiFunction)

/-- Applies an operation to its operands. -/
def Calculator.apply {R E : Type} [Scalar R] [Exponent E] [Narrowing R E] (c : Calculator R)
    (op : Operation) (args : List (Quantity R E)) : Except CalcError (Quantity R E) :=
  match op, args with
  | .operator o, [a, b] => c.operator o a b
  | .function f, [a] => c.function f a
  | .binaryFunction f, [a, b] => c.binaryFunction f a b
  | .multiFunction f, args => c.multiFunction f args
  | _, _ => .error .argumentCount

namespace Operation

/-- The operations that have a meaning for amounts. -/
def IsPhysical : Operation → Prop
  | operator o => o.aligns ∨ o ∈ [.multiply, .divide, .power]
  | function f => f ∈ [.negate, .abs, .sqrt, .cbrt]
  | binaryFunction f => f = .root
  | multiFunction f => f.aligns ∨ f ∈ [.product, .mean]

/-- The operands may have these dimensions. -/
def Fits : Operation → List (Dimension ℝ) → Prop
  | operator o, [d, e] => (o.aligns → e = d) ∧ (o = .power → e = .none)
  | function _, [_] => True
  | binaryFunction _, [_, e] => e = .none
  | multiFunction f, d :: ds => f.aligns → ∀ e ∈ ds, e = d
  | _, _ => False

/-- The index of a root is an integer above one. -/
def IntegerIndex : Operation → List Amount → Prop
  | binaryFunction .root, [_, index] => ∃ n : ℕ, 2 ≤ n ∧ index.value = n
  | _, _ => True

/-- The index of a root is written without a unit. -/
def PlainIndex : Operation → List (Quantity ℝ ℝ) → Prop
  | binaryFunction .root, [_, index] => index.unit = none
  | _, _ => True

/-- Amounts of one dimension. -/
def amountsOf (d : Dimension ℝ) (xs : List ℝ) : List Amount :=
  xs.map fun x => ⟨x, d⟩

/-- The real operations on amounts, where they are defined. -/
inductive Yields : Operation → List Amount → Amount → Prop
  | add {x y : ℝ} {d : Dimension ℝ} : Yields (operator .add) [⟨x, d⟩, ⟨y, d⟩] ⟨x + y, d⟩
  | subtract {x y : ℝ} {d : Dimension ℝ} :
      Yields (operator .subtract) [⟨x, d⟩, ⟨y, d⟩] ⟨x - y, d⟩
  | modulo {x y : ℝ} {d : Dimension ℝ} (nonzero : y ≠ 0) :
      Yields (operator .modulo) [⟨x, d⟩, ⟨y, d⟩] ⟨remainderOf x y, d⟩
  | compare {o : Operator} {x y : ℝ} {d : Dimension ℝ} (comparison : o.isComparison) :
      Yields (operator o) [⟨x, d⟩, ⟨y, d⟩] (.truth (o.Compares x y))
  | multiply {x y : ℝ} {d e : Dimension ℝ} :
      Yields (operator .multiply) [⟨x, d⟩, ⟨y, e⟩] ⟨x * y, d * e⟩
  | divide {x y : ℝ} {d e : Dimension ℝ} (nonzero : y ≠ 0) :
      Yields (operator .divide) [⟨x, d⟩, ⟨y, e⟩] ⟨x / y, d / e⟩
  | power {x y : ℝ} {d : Dimension ℝ} (positive : 0 < x) :
      Yields (operator .power) [⟨x, d⟩, ⟨y, .none⟩] ⟨x ^ y, d.pow y⟩
  | integerPower {x : ℝ} {n : ℤ} {d : Dimension ℝ} (defined : x ≠ 0 ∨ 0 ≤ n) :
      Yields (operator .power) [⟨x, d⟩, ⟨n, .none⟩] ⟨x ^ n, d.pow n⟩
  | negate {x : ℝ} {d : Dimension ℝ} : Yields (function .negate) [⟨x, d⟩] ⟨-x, d⟩
  | abs {x : ℝ} {d : Dimension ℝ} : Yields (function .abs) [⟨x, d⟩] ⟨|x|, d⟩
  | sqrt {x y : ℝ} {d : Dimension ℝ} (root : IsRoot 2 x y) :
      Yields (function .sqrt) [⟨x, d⟩] ⟨y, d.pow (1 / 2)⟩
  | cbrt {x y : ℝ} {d : Dimension ℝ} (root : IsRoot 3 x y) :
      Yields (function .cbrt) [⟨x, d⟩] ⟨y, d.pow (1 / 3)⟩
  | root {x y : ℝ} {n : ℕ} {d : Dimension ℝ} (large : 2 ≤ n) (root : IsRoot n x y) :
      Yields (binaryFunction .root) [⟨x, d⟩, ⟨n, .none⟩] ⟨y, d.pow (1 / n)⟩
  | min {x : ℝ} {xs : List ℝ} {d : Dimension ℝ} :
      Yields (multiFunction .min) (amountsOf d (x :: xs)) ⟨xs.foldl Min.min x, d⟩
  | max {x : ℝ} {xs : List ℝ} {d : Dimension ℝ} :
      Yields (multiFunction .max) (amountsOf d (x :: xs)) ⟨xs.foldl Max.max x, d⟩
  | sum {x : ℝ} {xs : List ℝ} {d : Dimension ℝ} :
      Yields (multiFunction .sum) (amountsOf d (x :: xs)) ⟨(x :: xs).sum, d⟩
  | average {x : ℝ} {xs : List ℝ} {d : Dimension ℝ} :
      Yields (multiFunction .average) (amountsOf d (x :: xs))
        ⟨(x :: xs).sum / (x :: xs).length, d⟩
  | sumsq {x : ℝ} {xs : List ℝ} {d : Dimension ℝ} :
      Yields (multiFunction .sumsq) (amountsOf d (x :: xs))
        ⟨((x :: xs).map (· ^ 2)).sum, d.pow 2⟩
  | srss {x y : ℝ} {xs : List ℝ} {d : Dimension ℝ}
      (root : IsRoot 2 ((x :: xs).map (· ^ 2)).sum y) :
      Yields (multiFunction .srss) (amountsOf d (x :: xs)) ⟨y, d⟩
  | product {m : Amount} {ms : List Amount} :
      Yields (multiFunction .product) (m :: ms) (ms.foldl (· * ·) m)
  | mean {m : Amount} {ms : List Amount} {y : ℝ}
      (root : IsRoot (ms.length + 1) (ms.foldl (· * ·) m).value y) :
      Yields (multiFunction .mean) (m :: ms)
        ⟨y, (ms.foldl (· * ·) m).dimension.pow (1 / (ms.length + 1 : ℕ))⟩

end Operation

namespace Calculator

variable {c : Calculator ℝ} {isComplex : Bool} {op : Operation} {args : List (Quantity ℝ ℝ)}

/-- The operand of one amount. -/
theorem operand_of_amount {x : ℝ} {d : Dimension ℝ} (one : args.map Quantity.amount = [⟨x, d⟩]) :
    ∃ a, args = [a] ∧ a.amount.value = x ∧ unitDimension a.unit = d := by
  obtain ⟨a, rfl, amount⟩ := List.map_eq_singleton_iff.1 one
  exact ⟨a, rfl, congrArg Amount.value amount, congrArg Amount.dimension amount⟩

/-- The operands of two amounts. -/
theorem operands_of_amounts {x y : ℝ} {d e : Dimension ℝ}
    (two : args.map Quantity.amount = [⟨x, d⟩, ⟨y, e⟩]) :
    ∃ a b, args = [a, b] ∧ a.amount.value = x ∧ unitDimension a.unit = d ∧
      b.amount.value = y ∧ unitDimension b.unit = e := by
  obtain ⟨a, others, rfl, amount, one⟩ := List.map_eq_cons_iff.1 two
  obtain ⟨b, rfl, value, dimension⟩ := operand_of_amount one
  exact ⟨a, b, rfl, congrArg Amount.value amount, congrArg Amount.dimension amount, value,
    dimension⟩

/-- The arguments of some amounts of one dimension. -/
theorem arguments_of_amounts {x : ℝ} {xs : List ℝ} {d : Dimension ℝ}
    (some : args.map Quantity.amount = Operation.amountsOf d (x :: xs)) :
    ∃ first rest, args = first :: rest ∧ first.amount.value = x ∧ unitDimension first.unit = d ∧
      values rest = xs ∧ ∀ q ∈ rest, unitDimension q.unit = d := by
  obtain ⟨first, rest, rfl, amount, others⟩ := List.map_eq_cons_iff.1 some
  refine ⟨first, rest, rfl, congrArg Amount.value amount, congrArg Amount.dimension amount, ?_, ?_⟩
  · have numbers := congrArg (List.map Amount.value) others
    simpa only [List.map_map, Function.comp_def, List.map_id', values] using numbers
  · intro q within
    have member : q.amount ∈ xs.map fun x => (⟨x, d⟩ : Amount) :=
      others ▸ List.mem_map_of_mem within
    obtain ⟨y, -, same⟩ := List.mem_map.1 member
    exact (congrArg Amount.dimension same).symm

/-- Where the real operation is defined on the amounts, the result has the amount that it gives. -/
theorem measures_apply (mode : c.kernel = .ofMode isComplex) (measured : ∀ q ∈ args, q.IsMeasured)
    (plain : op.PlainIndex args) {m : Amount} (yields : op.Yields (args.map Quantity.amount) m) :
    Measures (c.apply op args) m := by
  -- There is one case for each real operation, and the amounts say how many operands it has.
  generalize amounts : args.map Quantity.amount = ms at yields
  cases yields with
  | add =>
    obtain ⟨a, b, rfl, rfl, rfl, rfl, same⟩ := operands_of_amounts amounts
    exact measures_add (measured a (by simp)) (measured b (by simp)) same.symm
  | subtract =>
    obtain ⟨a, b, rfl, rfl, rfl, rfl, same⟩ := operands_of_amounts amounts
    exact measures_subtract (measured a (by simp)) (measured b (by simp)) same.symm
  | modulo =>
    obtain ⟨a, b, rfl, rfl, rfl, rfl, same⟩ := operands_of_amounts amounts
    exact measures_modulo (measured a (by simp)) same.symm
  | compare comparison =>
    obtain ⟨a, b, rfl, rfl, rfl, rfl, same⟩ := operands_of_amounts amounts
    exact measures_compare (measured a (by simp)) (measured b (by simp)) comparison same.symm
  | multiply =>
    obtain ⟨a, b, rfl, rfl, rfl, rfl, rfl⟩ := operands_of_amounts amounts
    exact measures_multiply (measured a (by simp)) (measured b (by simp)) mode
  | divide =>
    obtain ⟨a, b, rfl, rfl, rfl, rfl, rfl⟩ := operands_of_amounts amounts
    exact measures_divide (measured a (by simp)) (measured b (by simp)) mode
  | power positive =>
    obtain ⟨a, b, rfl, rfl, rfl, rfl, dimensionless⟩ := operands_of_amounts amounts
    exact measures_power (measured a (by simp)) (measured b (by simp)) mode dimensionless
      (.inl positive)
  | @integerPower x n d =>
    obtain ⟨a, b, rfl, rfl, rfl, exponent, dimensionless⟩ := operands_of_amounts amounts
    have measures := measures_power (c := c) (measured a (by simp)) (measured b (by simp)) mode
      dimensionless (.inr ⟨n, exponent⟩)
    rwa [exponent, Real.rpow_intCast] at measures
  | negate =>
    obtain ⟨a, rfl, rfl, rfl⟩ := operand_of_amount amounts
    exact measures_negate (measured a (by simp)) mode
  | abs =>
    obtain ⟨a, rfl, rfl, rfl⟩ := operand_of_amount amounts
    exact measures_abs (measured a (by simp)) mode
  | sqrt root =>
    obtain ⟨a, rfl, rfl, rfl⟩ := operand_of_amount amounts
    exact measures_sqrt (measured a (by simp)) mode root
  | cbrt root =>
    obtain ⟨a, rfl, rfl, rfl⟩ := operand_of_amount amounts
    exact measures_cbrt (measured a (by simp)) mode root
  | @root x y n d large root =>
    obtain ⟨a, b, rfl, rfl, rfl, index, _⟩ := operands_of_amounts amounts
    have withoutUnit : b.unit = none := plain
    have index : b.re = n := by rwa [b.amount_value, withoutUnit, unitFactor, mul_one] at index
    exact measures_root (measured a (by simp)) mode withoutUnit (measured b (by simp)).real large
      index root
  | min =>
    obtain ⟨first, rest, rfl, rfl, rfl, rfl, same⟩ := arguments_of_amounts amounts
    exact measures_min (c := c) measured same
  | max =>
    obtain ⟨first, rest, rfl, rfl, rfl, rfl, same⟩ := arguments_of_amounts amounts
    exact measures_max (c := c) measured same
  | sum =>
    obtain ⟨first, rest, rfl, rfl, rfl, rfl, same⟩ := arguments_of_amounts amounts
    exact measures_sum (c := c) measured same
  | average =>
    obtain ⟨first, rest, rfl, rfl, rfl, rfl, same⟩ := arguments_of_amounts amounts
    exact measures_average (c := c) measured same
  | sumsq =>
    obtain ⟨first, rest, rfl, rfl, rfl, rfl, same⟩ := arguments_of_amounts amounts
    exact measures_sumsq measured same mode
  | srss root =>
    obtain ⟨first, rest, rfl, rfl, rfl, rfl, same⟩ := arguments_of_amounts amounts
    exact measures_srss measured same mode root
  | product =>
    obtain ⟨first, rest, rfl, rfl, rfl⟩ := List.map_eq_cons_iff.1 amounts
    exact measures_product mode measured
  | mean root =>
    obtain ⟨first, rest, rfl, rfl, rfl⟩ := List.map_eq_cons_iff.1 amounts
    rw [List.length_map] at root ⊢
    exact measures_mean mode measured rfl root

theorem operator_succeeds {o : Operator} {a b : Quantity ℝ ℝ}
    (physical : o.aligns ∨ o ∈ [.multiply, .divide, .power])
    (measured : a.IsMeasured) (measured' : b.IsMeasured) :
    (∃ q, c.operator o a b = .ok q) ↔
      (o.aligns → unitDimension b.unit = unitDimension a.unit) ∧
        (o = .power → unitDimension b.unit = .none) := by
  obtain aligns | combines := physical
  · have notPower : o ≠ .power := by
      rintro rfl
      cases aligns
    rw [operator_succeeds_iff aligns measured]
    exact ⟨fun same => ⟨fun _ => same.symm, fun power => absurd power notPower⟩,
      fun fits => (fits.1 aligns).symm⟩
  · simp only [List.mem_cons, List.not_mem_nil, or_false] at combines
    obtain rfl | rfl | rfl := combines
    · exact iff_of_true ⟨_, rfl⟩ ⟨nofun, nofun⟩
    · exact iff_of_true ⟨_, rfl⟩ ⟨nofun, nofun⟩
    · rw [power_succeeds_iff measured measured']
      exact ⟨fun dimensionless => ⟨nofun, fun _ => dimensionless⟩, fun fits => fits.2 rfl⟩

theorem root_succeeds {a b : Quantity ℝ ℝ} (measured : b.IsMeasured) :
    (∃ q, c.binaryFunction .root a b = .ok q) ↔
      unitDimension b.unit = .none ∧ (∃ n : ℕ, 2 ≤ n ∧ b.amount.value = n) ∧ b.unit = none := by
  constructor
  · rintro ⟨q, ok⟩
    obtain ⟨plain, n, large, index⟩ := index_of_root ok
    refine ⟨by rw [plain]; rfl, ⟨n, large, ?_⟩, plain⟩
    rw [b.amount_value, plain, unitFactor, mul_one, index]
  · rintro ⟨-, ⟨n, large, index⟩, plain⟩
    rw [b.amount_value, plain, unitFactor, mul_one] at index
    exact ⟨_, binaryFunction_root measured.real plain large index⟩

theorem multiFunction_succeeds {f : MultiFunction} {first : Quantity ℝ ℝ}
    {rest : List (Quantity ℝ ℝ)} (mode : c.kernel = .ofMode isComplex)
    (physical : f.aligns ∨ f ∈ [.product, .mean]) (measured : ∀ q ∈ first :: rest, q.IsMeasured) :
    (∃ q, c.multiFunction f (first :: rest) = .ok q) ↔
      (f.aligns → ∀ q ∈ rest, unitDimension q.unit = unitDimension first.unit) := by
  obtain aligns | multiplies := physical
  · rw [multiFunction_succeeds_iff aligns measured]
    exact ⟨fun same _ => same, fun fits => fits aligns⟩
  · obtain ⟨p, ok, -, -⟩ := measures_product mode measured
    simp only [List.mem_cons, List.not_mem_nil, or_false] at multiplies
    obtain rfl | rfl := multiplies
    · exact iff_of_true ⟨p, ok⟩ nofun
    · refine iff_of_true ?_ nofun
      rw [multiFunction, ok]
      exact ⟨_, rfl⟩

/-- The operation succeeds for the dimensions that fit, when the index of a root is an integer
above one without a unit. -/
theorem apply_succeeds_iff (mode : c.kernel = .ofMode isComplex) (physical : op.IsPhysical)
    (measured : ∀ q ∈ args, q.IsMeasured) :
    (∃ q, c.apply op args = .ok q) ↔
      op.Fits (args.map fun q => q.amount.dimension) ∧
        op.IntegerIndex (args.map Quantity.amount) ∧ op.PlainIndex args := by
  -- With a wrong number of operands both sides are false.
  cases op with
  | operator o =>
    match args with
    | [a, b] =>
      have succeeds := operator_succeeds (c := c) physical (measured a (by simp))
        (measured b (by simp))
      exact succeeds.trans (and_iff_left ⟨trivial, trivial⟩).symm
    | [] | [_] | _ :: _ :: _ :: _ => exact iff_of_false nofun fun fits => fits.1
  | function f =>
    match args with
    | [a] =>
      have chosen : f = .negate ∨ f = .abs ∨ f = .sqrt ∨ f = .cbrt := by
        simpa only [Operation.IsPhysical, List.mem_cons, List.not_mem_nil, or_false] using physical
      have succeeds : ∃ q, c.function f a = .ok q := by
        obtain rfl | rfl | rfl | rfl := chosen <;> exact ⟨_, rfl⟩
      exact iff_of_true succeeds ⟨trivial, trivial, trivial⟩
    | [] | _ :: _ :: _ => exact iff_of_false nofun fun fits => fits.1
  | binaryFunction f =>
    cases (show f = .root from physical)
    match args with
    | [a, b] => exact root_succeeds (measured b (by simp))
    | [] | [_] | _ :: _ :: _ :: _ => exact iff_of_false nofun fun fits => fits.1
  | multiFunction f =>
    match args with
    | first :: rest =>
      have succeeds := multiFunction_succeeds mode physical measured
      rw [← List.forall_mem_map (P := fun d => d = unitDimension first.unit)] at succeeds
      exact succeeds.trans (and_iff_left ⟨trivial, trivial⟩).symm
    | [] => exact iff_of_false nofun fun fits => fits.1

/-- Arithmetic on quantities is arithmetic on their amounts, and amounts can be written in any
units. -/
theorem apply_amounts (mode : c.kernel = .ofMode isComplex) (physical : op.IsPhysical)
    (measured : ∀ q ∈ args, q.IsMeasured) :
    ((∃ q, c.apply op args = .ok q) ↔
      op.Fits (args.map fun q => q.amount.dimension) ∧
        op.IntegerIndex (args.map Quantity.amount) ∧ op.PlainIndex args) ∧
    (op.PlainIndex args → ∀ m, op.Yields (args.map Quantity.amount) m →
      ∃ q, c.apply op args = .ok q ∧ q.IsMeasured ∧ q.amount = m) ∧
    (∀ others : List (Quantity ℝ ℝ), (∀ q ∈ others, q.IsMeasured) →
      others.map Quantity.amount = args.map Quantity.amount →
      (op.PlainIndex others ↔ op.PlainIndex args) →
      ((∃ q, c.apply op others = .ok q) ↔ ∃ q, c.apply op args = .ok q) ∧
      ∀ m, op.Yields (args.map Quantity.amount) m →
        ∀ q r, c.apply op args = .ok q → c.apply op others = .ok r → r.amount = q.amount) := by
  have succeeds := apply_succeeds_iff mode physical measured
  refine ⟨succeeds, fun plain m yields => measures_apply mode measured plain yields, ?_⟩
  intro others measured' same plain
  have dimensions : (others.map fun q => q.amount.dimension) =
      args.map fun q => q.amount.dimension := by
    simpa only [List.map_map, Function.comp_def] using congrArg (List.map Amount.dimension) same
  -- Both lists have the same dimensions and the same index, on which success depends.
  refine ⟨?_, ?_⟩
  · rw [apply_succeeds_iff mode physical measured', succeeds, dimensions, same, plain]
  · intro m yields q r ok ok'
    have index : op.PlainIndex args := (succeeds.1 ⟨q, ok⟩).2.2
    -- Each result has the amount that the real operation yields, so both have one amount.
    obtain ⟨p, okP, -, amount⟩ := measures_apply mode measured index yields
    rw [← same] at yields
    obtain ⟨p', okP', -, amount'⟩ := measures_apply mode measured' (plain.2 index) yields
    cases ok.symm.trans okP
    cases ok'.symm.trans okP'
    rw [amount, amount']

/-- A kilometre and five hundred metres are fifteen hundred metres. -/
theorem apply_amounts_length :
    let length : Dimension ℝ := ⟨0, 1, 0, 0, 0, 0, 0, 0, 0⟩
    let kilometre : Quantity ℝ ℝ := ⟨.ofReal 1, some (.named "km" length 1000), false⟩
    let metres : Quantity ℝ ℝ := ⟨.ofReal 500, some (.named "m" length 1), false⟩
    let c : Calculator ℝ := ⟨.ofMode true, .degree, false, 0⟩
    ∃ q, c.apply (.operator .add) [kilometre, metres] = .ok q ∧ q.IsMeasured ∧
      q.amount = ⟨1500, length⟩ := by
  intro length kilometre metres c
  have measured : ∀ q ∈ [kilometre, metres], q.IsMeasured := by
    intro q within
    simp only [List.mem_cons, List.not_mem_nil, or_false] at within
    obtain rfl | rfl := within
    · exact ⟨rfl, by norm_num [kilometre, unitFactor, MeasureUnit.named]⟩
    · exact ⟨rfl, by norm_num [metres, unitFactor, MeasureUnit.named]⟩
  have kilometreAmount : kilometre.amount = ⟨1000, length⟩ := by
    rw [Quantity.amount_eq]
    exact congrArg (fun x => (⟨x, length⟩ : Amount)) (one_mul 1000)
  have metresAmount : metres.amount = ⟨500, length⟩ := by
    rw [Quantity.amount_eq]
    exact congrArg (fun x => (⟨x, length⟩ : Amount)) (mul_one 500)
  have total : (⟨1500, length⟩ : Amount) = ⟨1000 + 500, length⟩ := by norm_num
  have physical : (Operation.operator .add).IsPhysical := Or.inl rfl
  have mode : c.kernel = .ofMode true := rfl
  rw [total]
  refine (apply_amounts mode physical measured).2.1 trivial _ ?_
  show Operation.Yields _ [kilometre.amount, metres.amount] _
  rw [kilometreAmount, metresAmount]
  exact .add

/-- The index three hundred percent is three, but only three is accepted. -/
theorem root_percent :
    let eight : Quantity ℝ ℝ := .real 8
    let three : Quantity ℝ ℝ := .real 3
    let percent : Quantity ℝ ℝ := ⟨.ofReal 300, some (.named "%" .none (1 / 100)), false⟩
    let c : Calculator ℝ := ⟨.ofMode false, .degree, false, 0⟩
    (eight.IsMeasured ∧ three.IsMeasured ∧ percent.IsMeasured) ∧ percent.amount = three.amount ∧
      (∃ q, c.apply (.binaryFunction .root) [eight, three] = .ok q) ∧
      c.apply (.binaryFunction .root) [eight, percent] = .error .rootIndexNotUnitless := by
  intro eight three percent c
  refine ⟨⟨⟨rfl, one_pos⟩, ⟨rfl, one_pos⟩, ⟨rfl, ?_⟩⟩, ?_, ?_, rfl⟩
  · show (0 : ℝ) < 1 / 100
    norm_num
  · rw [Quantity.amount_eq, Quantity.amount_eq]
    have value : (300 : ℝ) * (1 / 100) = 3 * 1 := by norm_num
    exact congrArg (fun x => (⟨x, .none⟩ : Amount)) value
  · have index : three.re = (3 : ℕ) := by
      show (3 : ℝ) = (3 : ℕ)
      norm_num
    exact ⟨_, binaryFunction_root rfl rfl (by norm_num) index⟩

end Calculator

end UnitCalc

end
