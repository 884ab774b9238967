/-
# Units composed of built-in units

A composed unit is built from units of the table by products, quotients and whole powers. Its
terms say how often each symbol is a factor, and its dimension and its factor are the ones of that
product. This is exact as long as no exponent, of a term or of the dimension, reaches the bound up
to which single precision holds whole numbers. Beyond the bound the exponents of terms and of
dimensions are rounded each on their own, and no longer fit together.

## Main definitions

* `MeasureUnit.Composed`: a unit built by products, quotients and powers within the bound.
* `MeasureUnit.IsProduct`: terms, text, dimension and factor belong together.

## Main results

* `MeasureUnit.Composed.isProduct`: they do in composed units.
* `MeasureUnit.Composed.multiply?`, `MeasureUnit.Composed.divide?`: so are the units of products
  and quotients of measurements.
-/

import Mathlib
import UnitCalc.Measure.Catalogue
import UnitCalc.Proofs.Measure.Powers
import UnitCalc.Proofs.Number.Rounding
import UnitCalc.Proofs.Text.Classes

noncomputable section

namespace UnitCalc

open Number (IsWhole)

/-! ## Dimensions by base quantity -/

namespace Dimension

variable {E : Type}

/-- The exponent of a base quantity. -/
def exponent (d : Dimension E) : Fin 9 → E :=
  ![d.time, d.length, d.mass, d.current, d.temperature, d.amount, d.luminosity, d.angle, d.custom]

theorem exponent_mul [Add E] (d e : Dimension E) (k : Fin 9) :
    (d * e).exponent k = d.exponent k + e.exponent k := by
  fin_cases k <;> rfl

theorem exponent_div [Sub E] (d e : Dimension E) (k : Fin 9) :
    (d / e).exponent k = d.exponent k - e.exponent k := by
  fin_cases k <;> rfl

theorem exponent_pow [Mul E] (d : Dimension E) (n : E) (k : Fin 9) :
    (d.pow n).exponent k = d.exponent k * n := by
  fin_cases k <;> rfl

theorem exponent_mem_toList (d : Dimension E) (k : Fin 9) : d.exponent k ∈ d.toList := by
  fin_cases k <;> simp [exponent, toList]

theorem beq_of_exponent [BEq E] {d e : Dimension E}
    (same : ∀ k, (d.exponent k == e.exponent k) = true) : (d == e) = true := by
  have all : ((d.exponent 0 == e.exponent 0) && (d.exponent 1 == e.exponent 1) &&
      (d.exponent 2 == e.exponent 2) && (d.exponent 3 == e.exponent 3) &&
      (d.exponent 4 == e.exponent 4) && (d.exponent 5 == e.exponent 5) &&
      (d.exponent 6 == e.exponent 6) && (d.exponent 7 == e.exponent 7) &&
      (d.exponent 8 == e.exponent 8)) = true := by
    simp only [same, Bool.and_self]
  exact all

end Dimension

/-! ## The table -/

namespace Catalogue

variable {R E : Type} [Scalar R] [Exponent E]

theorem mem_units {name : String} {u : MeasureUnit R E} (found : find? name = some u) :
    u ∈ (units : List (MeasureUnit R E)) :=
  List.mem_of_find?_eq_some (p := fun u : MeasureUnit R E => u.text == name) found

/-- A symbol is made of a prefix, if any, and of a symbol of the table. -/
theorem exists_parts {name : String} {u : MeasureUnit R E} (found : find? name = some u) :
    ∃ e ∈ (table : List (Entry R E)), ∃ p ∈ "" :: prefixes.map Prod.fst,
      p ++ e.symbol = name ∧ u = .named name e.dimension u.factor := by
  have text : u.text = name := beq_iff_eq.1
    (List.find?_some (p := fun u : MeasureUnit R E => u.text == name) found)
  have within := mem_units found
  simp only [units, List.mem_append, List.mem_map, List.mem_flatMap, Entry.prefixedUnits] at within
  rcases within with ⟨e, within, rfl⟩ | ⟨e, within, prefixed⟩
  · obtain rfl : e.symbol = name := text
    exact ⟨e, within, "", List.mem_cons_self, String.empty_append, rfl⟩
  · split at prefixed
    · obtain ⟨⟨p, power⟩, known, rfl⟩ := List.mem_map.1 prefixed
      obtain rfl : p ++ e.symbol = name := text
      exact ⟨e, within, p, List.mem_cons_of_mem _ (List.mem_map_of_mem known), rfl, rfl⟩
    · cases prefixed

/-- Symbols are made of the characters that symbols may contain. -/
theorem symbol_spec {name : String} {u : MeasureUnit R E} (found : find? name = some u) :
    name.toList ≠ [] ∧ ∀ c ∈ name.toList, isUnitChar c = true := by
  have symbols : ((table : List (Entry Float Float32)).map Entry.symbol).all (fun s =>
      !s.toList.isEmpty && s.toList.all fun c => isUnitChar c) = true := by
    simp only [isUnitChar, Text.isAlphabetic, Text.inSpans_eq]
    decide +kernel
  have before : ("" :: prefixes.map Prod.fst).all (fun p => p.toList.all fun c => isUnitChar c) = true := by
    simp only [isUnitChar, Text.isAlphabetic, Text.inSpans_eq]
    decide +kernel
  have same : (table : List (Entry R E)).map Entry.symbol =
    (table : List (Entry Float Float32)).map Entry.symbol := rfl
  obtain ⟨e, within, p, known, rfl, -⟩ := exists_parts found
  have own := List.all_eq_true.1 symbols e.symbol (same ▸ List.mem_map_of_mem within)
  simp only [Bool.and_eq_true, Bool.not_eq_true', List.isEmpty_eq_false_iff] at own
  rw [String.toList_append]
  refine ⟨List.append_ne_nil_of_right_ne_nil _ own.1, fun c within => ?_⟩
  exact (List.mem_append.1 within).elim
    (List.all_eq_true.1 (List.all_eq_true.1 before p known) c) (List.all_eq_true.1 own.2 c)

/-- Dimensions of the table have whole exponents, none of them beyond four. -/
theorem exists_isWhole {name : String} {u : MeasureUnit R Float32} (found : find? name = some u)
    (k : Fin 9) : ∃ n : ℤ, n.natAbs ≤ 4 ∧ IsWhole (u.dimension.exponent k) n := by
  have dimensions : ∀ d ∈ (table : List (Entry Float Float32)).map Entry.dimension,
      ∀ e ∈ d.toList, (Exponent.toInt? e).any (fun n => n.natAbs ≤ 4) = true := by
    decide +kernel
  have same : (table : List (Entry R Float32)).map Entry.dimension =
    (table : List (Entry Float Float32)).map Entry.dimension := rfl
  obtain ⟨e, within, p, known, -, named⟩ := exists_parts found
  obtain ⟨n, value, small⟩ := (Option.any_eq_true _ _).1 (dimensions e.dimension
    (same ▸ List.mem_map_of_mem within) _ (Dimension.exponent_mem_toList _ k))
  rw [decide_eq_true_iff] at small
  refine ⟨n, small, ?_⟩
  rw [named]
  exact .of_toInt? value (by omega)

/-! ### Factors -/

theorem powInt_pos {a : ℝ} (n : ℤ) (positive : 0 < a) : 0 < Scalar.powInt a n := by
  have go (a : ℝ) (n : ℕ) (r : ℝ) (base : 0 < a) (start : 0 < r) : 0 < Scalar.powNat.go a n r := by
    induction n using Nat.strongRecOn generalizing a r with
    | _ n ih =>
      rw [Scalar.powNat.go]
      split
      · have next : 0 < if n % 2 == 1 then r * a else r := by
          split
          · exact mul_pos start base
          · exact start
        dsimp only
        split
        · exact next
        · exact ih _ (by omega) _ _ (mul_pos base base) next
      · exact start
  have natural := go a n.natAbs 1 positive one_pos
  rw [Scalar.powInt, Scalar.powNat]
  split
  · exact one_div_pos.2 natural
  · exact natural

/-- The factors of the table are positive. -/
theorem table_pos {e : Entry ℝ Float32} (within : e ∈ table) : 0 < e.factor := by
  have pi : (0 : ℝ) < Scalar.pi := Real.pi_pos
  have literal (a : ℕ) (b : Bool) (c : ℕ) : @OfScientific.ofScientific ℝ Scalar.toOfScientific a b c =
    @OfScientific.ofScientific ℝ NNRatCast.toOfScientific a b c := rfl
  revert e
  simp only [table, List.forall_mem_cons, List.not_mem_nil, false_implies, implies_true, and_true,
    literal]
  and_intros <;> positivity

theorem factor_pos {name : String} {u : MeasureUnit ℝ Float32} (found : find? name = some u) :
    0 < u.factor := by
  have within := mem_units found
  simp only [units, List.mem_append, List.mem_map, List.mem_flatMap, Entry.prefixedUnits] at within
  rcases within with ⟨e, within, rfl⟩ | ⟨e, within, prefixed⟩
  · exact table_pos within
  · split at prefixed
    · obtain ⟨⟨p, power⟩, known, rfl⟩ := List.mem_map.1 prefixed
      have ten : (0 : ℝ) < (OfScientific.ofScientific 100 true 1 : ℝ) := by norm_num
      exact mul_pos (table_pos within) (powInt_pos power ten)
    · cases prefixed

/-! ### Exact quantities -/

/-- The name is the symbol of a built-in unit. -/
def IsSymbol (name : String) : Prop :=
  (find? name : Option (MeasureUnit ℝ Float32)).isSome = true

/-- The integers in the dimension of a symbol. -/
def dimensionOf (name : String) (k : Fin 9) : ℤ :=
  match (find? name : Option (MeasureUnit ℝ Float32)) with
  | some u => (Exponent.toInt? (u.dimension.exponent k)).getD 0
  | none => 0

theorem natAbs_dimensionOf_le (name : String) (k : Fin 9) : (dimensionOf name k).natAbs ≤ 4 := by
  rw [dimensionOf]
  split
  · next u found =>
    obtain ⟨n, small, whole⟩ := exists_isWhole found k
    rwa [whole.toInt?_eq, Option.getD_some]
  · exact Nat.zero_le _

/-- The logarithm of the factor of a symbol. -/
def logOf (name : String) : ℝ :=
  match (find? name : Option (MeasureUnit ℝ Float32)) with
  | some u => Real.log u.factor
  | none => 0

end Catalogue

/-- The exact dimension of a product of powers of symbols. -/
def exactDimension (p : String →₀ ℤ) : Fin 9 → ℤ :=
  Finsupp.linearCombination ℤ Catalogue.dimensionOf p

/-- The logarithm of the exact factor of a product of powers of symbols. -/
def exactLog (p : String →₀ ℤ) : ℝ :=
  Finsupp.linearCombination ℤ Catalogue.logOf p

/-- No exponent of a product, be it of a symbol or of the dimension, reaches the bound up to which
single precision holds whole numbers. -/
structure IsBounded (p : String →₀ ℤ) : Prop where
  powers : ∀ name, (p name).natAbs < 2 ^ 24
  dimension : ∀ k, (exactDimension p k).natAbs < 2 ^ 24

theorem exactDimension_powersOf (ps : List (String × ℤ)) (k : Fin 9) :
    exactDimension (UnitTerm.powersOf ps) k =
      (ps.map fun p => p.2 * Catalogue.dimensionOf p.1 k).sum := by
  induction ps with
  | nil => exact congrFun (map_zero (Finsupp.linearCombination ℤ Catalogue.dimensionOf)) k
  | cons p ps ih =>
    rw [List.map_cons, List.sum_cons, ← ih, UnitTerm.powersOf_cons, exactDimension, map_add,
      Finsupp.linearCombination_single]
    rfl

/-- Powers of different symbols are bounded when their sum is, base by base. -/
theorem IsBounded.of_distinct {ps : List (String × ℤ)} (distinct : (ps.map Prod.fst).Nodup)
    (small : ∀ p ∈ ps, p.2.natAbs < 2 ^ 24)
    (dimension : ∀ k, (ps.map fun p => p.2 * Catalogue.dimensionOf p.1 k).sum.natAbs < 2 ^ 24) :
    IsBounded (UnitTerm.powersOf ps) where
  powers name := by
    by_cases here : name ∈ ps.map Prod.fst
    · obtain ⟨p, within, rfl⟩ := List.mem_map.1 here
      rw [UnitTerm.powersOf_of_mem distinct within]
      exact small p within
    · rw [UnitTerm.powersOf_of_not_mem here]
      decide
  dimension k := by
    rw [exactDimension_powersOf]
    exact dimension k

/-- A few powers of different symbols are bounded, however they are signed. -/
theorem IsBounded.of_sum {ps : List (String × ℤ)} (distinct : (ps.map Prod.fst).Nodup)
    (few : (ps.map fun p => p.2.natAbs).sum < 2 ^ 22) : IsBounded (UnitTerm.powersOf ps) := by
  refine .of_distinct distinct (fun p within => ?_) fun k => ?_
  · have := List.single_le_sum (fun n _ => Nat.zero_le n) _
      (List.mem_map_of_mem (f := fun p : String × ℤ => p.2.natAbs) within)
    omega
  · have bound : (ps.map fun p => p.2 * Catalogue.dimensionOf p.1 k).sum.natAbs ≤
        4 * (ps.map fun p => p.2.natAbs).sum := by
      clear distinct few
      induction ps with
      | nil => exact Nat.zero_le _
      | cons p ps ih =>
        have own := Nat.mul_le_mul_left p.2.natAbs (Catalogue.natAbs_dimensionOf_le p.1 k)
        rw [← Int.natAbs_mul] at own
        rw [List.map_cons, List.sum_cons, List.map_cons, List.sum_cons]
        omega
    omega

namespace MeasureUnit

open Catalogue (IsSymbol)
open UnitTerm (AreWhole powers powersOf powersOf_scale pair scale)

/-- The unit is the product of its terms: they are powers of different symbols, and its text, its
dimension and its factor are those of the product. -/
structure IsProduct (u : MeasureUnit ℝ Float32) : Prop where
  areWhole : AreWhole u.terms
  nonzero : ∀ t ∈ u.terms, t.power ≠ 0
  known : ∀ name, powers u.terms name ≠ 0 → IsSymbol name
  text : u.text = UnitTerm.render u.terms
  dimension : ∀ k, IsWhole (u.dimension.exponent k) (exactDimension (powers u.terms) k)
  positive : 0 < u.factor
  log : Real.log u.factor = exactLog (powers u.terms)

variable {u a b : MeasureUnit ℝ Float32} {name : String} {n : ℤ} {e sign : Float32}

/-- Built-in units are products of themselves. -/
theorem IsProduct.of_symbol (found : Catalogue.find? name = some u) :
    u.IsProduct ∧ u.terms.map pair = [(name, 1)] := by
  obtain ⟨entry, -, -, -, -, named⟩ := Catalogue.exists_parts found
  have terms : u.terms = [⟨.named name, One.one⟩] := by
    rw [named]
    rfl
  have one : UnitTerm.power (⟨.named name, One.one⟩ : UnitTerm ℝ Float32) = 1 :=
    UnitTerm.power_eq .one
  have pairs : u.terms.map pair = [(name, 1)] := by
    rw [terms]
    exact congrArg (fun n => [(name, n)]) one
  have powers : powers u.terms = Finsupp.single name 1 := by
    rw [powers, pairs]
    exact add_zero _
  have areWhole : AreWhole u.terms := by
    rw [terms]
    refine ⟨?_, List.nodup_singleton _⟩
    rw [List.forall_mem_singleton, one]
    exact .one
  refine ⟨⟨areWhole, ?_, ?_, ?_, ?_, Catalogue.factor_pos found, ?_⟩, pairs⟩
  · rw [terms, List.forall_mem_singleton, one]
    exact one_ne_zero
  · intro other factor
    rw [powers] at factor
    obtain rfl : other = name := by
      by_contra different
      exact factor (Finsupp.single_eq_of_ne different)
    exact Option.isSome_iff_exists.2 ⟨u, found⟩
  · rw [UnitTerm.render_eq areWhole.whole, pairs, named]
    show name = "·".intercalate [name]
    exact String.intercalate_singleton.symm
  · intro k
    obtain ⟨n, -, whole⟩ := Catalogue.exists_isWhole found k
    rw [powers, exactDimension, Finsupp.linearCombination_single, one_smul, Catalogue.dimensionOf,
      found]
    simpa only [whole.toInt?_eq, Option.getD_some] using whole
  · rw [powers, exactLog, Finsupp.linearCombination_single, one_smul, Catalogue.logOf, found]

/-- A unit that is built from the terms of a product. -/
theorem IsProduct.ofTerms {terms : List (UnitTerm ℝ Float32)} {p : String →₀ ℤ}
    {dimension : Dimension Float32} {factor : ℝ} (areWhole : AreWhole terms)
    (total : powers terms = p) (known : ∀ name, p name ≠ 0 → IsSymbol name)
    (exact : ∀ k, IsWhole (dimension.exponent k) (exactDimension p k)) (positive : 0 < factor)
    (log : Real.log factor = exactLog p) :
    (ofTerms dimension factor (terms.filter fun t => t.exponent != 0)).IsProduct ∧
      powers (ofTerms dimension factor (terms.filter fun t => t.exponent != 0)).terms = p := by
  obtain ⟨kept, same, nonzero⟩ := areWhole.filter
  have same : powers (terms.filter fun t => t.exponent != 0) = p := same.trans total
  refine ⟨⟨kept, nonzero, ?_, rfl, ?_, positive, ?_⟩, same⟩
  · show ∀ name, powers (terms.filter fun t => t.exponent != 0) name ≠ 0 → IsSymbol name
    rwa [same]
  · show ∀ k, IsWhole (dimension.exponent k)
      (exactDimension (powers (terms.filter fun t => t.exponent != 0)) k)
    rwa [same]
  · show Real.log factor = exactLog (powers (terms.filter fun t => t.exponent != 0))
    rwa [same]

/-- The terms of a factor or of a divisor. -/
theorem IsProduct.signed (product : b.IsProduct) (unit : n = 1 ∨ n = -1) (whole : IsWhole sign n) :
    AreWhole (b.terms.map fun t => { t with exponent := sign * t.exponent }) ∧
      (b.terms.map fun t => { t with exponent := sign * t.exponent }).map pair =
        (b.terms.map pair).map (scale n) :=
  product.areWhole.map (fun _ => rfl) fun t within =>
    whole.mul (product.areWhole.whole t within) <| by
      have := (product.areWhole.whole t within).natAbs_lt
      rcases unit with rfl | rfl <;> omega

/-- The terms of a power. -/
theorem IsProduct.raised (base : u.IsProduct) (whole : IsWhole e n)
    (bounded : IsBounded (n • powers u.terms)) :
    AreWhole (u.terms.map fun t => { t with exponent := t.exponent * e }) ∧
      (u.terms.map fun t => { t with exponent := t.exponent * e }).map pair =
        (u.terms.map pair).map (scale n) :=
  base.areWhole.map (fun _ => rfl) fun t within => by
    have small := bounded.powers t.name
    rw [Finsupp.smul_apply, base.areWhole.powers_of_mem within, smul_eq_mul, mul_comm] at small
    rw [mul_comm]
    exact (base.areWhole.whole t within).mul whole small

/-- Units are merged into the product or the quotient of them. -/
theorem IsProduct.joinWith (left : a.IsProduct) (right : b.IsProduct) (unit : n = 1 ∨ n = -1)
    (whole : IsWhole sign n) (bounded : IsBounded (powers a.terms + n • powers b.terms)) :
    (joinWith sign a b).IsProduct ∧
      powers (joinWith sign a b).terms = powers a.terms + n • powers b.terms := by
  obtain ⟨scaled, pairs⟩ := right.signed unit whole
  have multiplied := (congrArg powersOf pairs).trans (powersOf_scale n _)
  obtain ⟨merged, added⟩ := left.areWhole.foldl_merge scaled fun name => by
    rw [powers, powers, multiplied]
    exact bounded.powers name
  rw [List.foldl_map] at merged added
  rw [powers, powers, powers, multiplied] at added
  have power : Scalar.pow b.factor (Narrowing.widen sign) = b.factor ^ (n : ℝ) :=
    congrArg (b.factor ^ ·) whole.ofSingle_eq
  have powered : 0 < b.factor ^ (n : ℝ) := Real.rpow_pos_of_pos right.positive _
  refine IsProduct.ofTerms merged added (fun name occurs => ?_) (fun k => ?_) ?_ ?_
  · by_contra unknown
    have absent := not_imp_comm.1 (left.known name) unknown
    have absent' := not_imp_comm.1 (right.known name) unknown
    rw [Finsupp.add_apply, Finsupp.smul_apply, absent, absent', smul_zero, add_zero] at occurs
    exact occurs rfl
  · have small := bounded.dimension k
    rw [exactDimension, map_add, map_smul, Pi.add_apply, Pi.smul_apply, smul_eq_mul] at small ⊢
    have positive : (0 : Float32) < sign ↔ 0 < n := IsWhole.zero.lt_iff whole
    split
    · next above =>
      obtain rfl : n = 1 := unit.resolve_right fun same => by
        have := positive.1 above
        omega
      rw [one_mul] at small ⊢
      rw [Dimension.exponent_mul]
      exact (left.dimension k).add (right.dimension k) small
    · next below =>
      obtain rfl : n = -1 := unit.resolve_left fun same => below (positive.2 (by omega))
      rw [neg_one_mul, ← sub_eq_add_neg] at small ⊢
      rw [Dimension.exponent_div]
      exact (left.dimension k).sub (right.dimension k) small
  · rw [power]
    exact mul_pos left.positive powered
  · rw [power, Real.log_mul left.positive.ne' powered.ne', Real.log_rpow right.positive, left.log,
      right.log, exactLog, exactLog, exactLog, map_add, map_smul, zsmul_eq_mul]

/-- Powers of units multiply the powers of their terms. -/
theorem IsProduct.pow (base : u.IsProduct) (whole : IsWhole e n)
    (bounded : IsBounded (n • powers u.terms)) :
    (u.pow e).IsProduct ∧ powers (u.pow e).terms = n • powers u.terms := by
  obtain ⟨scaled, pairs⟩ := base.raised whole bounded
  have multiplied := (congrArg powersOf pairs).trans (powersOf_scale n _)
  have power : Scalar.pow u.factor (Narrowing.widen e) = u.factor ^ (n : ℝ) :=
    congrArg (u.factor ^ ·) whole.ofSingle_eq
  refine IsProduct.ofTerms scaled multiplied (fun name occurs => ?_) (fun k => ?_) ?_ ?_
  · by_contra unknown
    rw [Finsupp.smul_apply, not_imp_comm.1 (base.known name) unknown, smul_zero] at occurs
    exact occurs rfl
  · have small := bounded.dimension k
    rw [exactDimension, map_smul, Pi.smul_apply, smul_eq_mul, mul_comm] at small ⊢
    rw [Dimension.exponent_pow]
    exact (base.dimension k).mul whole small
  · rw [power]
    exact Real.rpow_pos_of_pos base.positive _
  · rw [power, Real.log_rpow base.positive, base.log, exactLog, exactLog, map_smul, zsmul_eq_mul]

/-! ## Composed units -/

/-- A unit that is built from built-in units by products, quotients and whole powers, in each of
which all exponents are below the bound. -/
inductive Composed : MeasureUnit ℝ Float32 → Prop
  | symbol {name : String} {u : MeasureUnit ℝ Float32} (found : Catalogue.find? name = some u) :
      Composed u
  | product {a b : MeasureUnit ℝ Float32} (left : Composed a) (right : Composed b)
      (bounded : IsBounded (powers a.terms + powers b.terms)) : Composed (a.join b)
  | quotient {a b : MeasureUnit ℝ Float32} (left : Composed a) (right : Composed b)
      (bounded : IsBounded (powers a.terms - powers b.terms)) : Composed (a.joinOver b)
  | power {u : MeasureUnit ℝ Float32} {e : Float32} {n : ℤ} (base : Composed u)
      (whole : Exponent.toInt? e = some n) (small : n.natAbs < 2 ^ 24)
      (bounded : IsBounded (n • powers u.terms)) : Composed (u.pow e)

/-- Composed units are the products of their terms. -/
theorem Composed.isProduct (composed : u.Composed) : u.IsProduct := by
  induction composed with
  | symbol found => exact (IsProduct.of_symbol found).1
  | product _ _ bounded left right =>
    refine (left.joinWith right (.inl rfl) .one ?_).1
    rwa [one_smul]
  | quotient _ _ bounded left right =>
    refine (left.joinWith right (.inr rfl) IsWhole.one.neg ?_).1
    rwa [neg_one_smul, ← sub_eq_add_neg]
  | power _ whole small bounded base => exact (base.pow (.of_toInt? whole small) bounded).1

theorem eq_of_reduced {R E : Type} [Scalar R] [Exponent E] {k : R} {u w : MeasureUnit R E}
    (reduced : u.reduced = (k, some w)) : u = w := by
  rw [MeasureUnit.reduced] at reduced
  split at reduced
  · cases reduced
  · exact Option.some.inj (congrArg Prod.snd reduced)

/-- The unit of a product of measurements is composed. -/
theorem Composed.multiply? {k : ℝ} {w : MeasureUnit ℝ Float32} (left : a.Composed)
    (right : b.Composed) (square : IsBounded ((2 : ℤ) • powers a.terms))
    (sum : IsBounded (powers a.terms + powers b.terms))
    (product : a.multiply? b = (k, some w)) : w.Composed := by
  have two : IsWhole (One.one + One.one : Float32) 2 := IsWhole.one.add .one (by decide)
  rw [MeasureUnit.multiply?] at product
  split_ifs at product
  · cases product
    exact left
  · cases product
    exact right
  · cases product
    exact left.power two.toInt?_eq (by decide) square
  · obtain rfl := eq_of_reduced product
    exact left.product right sum

/-- The unit of a quotient of measurements is composed. -/
theorem Composed.divide? {k : ℝ} {w : MeasureUnit ℝ Float32} (left : a.Composed)
    (right : b.Composed) (inverse : IsBounded ((-1 : ℤ) • powers b.terms))
    (difference : IsBounded (powers a.terms - powers b.terms))
    (quotient : a.divide? b = (k, some w)) : w.Composed := by
  rw [MeasureUnit.divide?] at quotient
  split_ifs at quotient
  · cases quotient
    exact left
  · cases quotient
    exact right.power IsWhole.one.neg.toInt?_eq (by decide) inverse
  · cases quotient
  · obtain rfl := eq_of_reduced quotient
    exact left.quotient right difference

end MeasureUnit

end UnitCalc

end
