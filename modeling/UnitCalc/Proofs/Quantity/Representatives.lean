/-
# Representative units

The representative of a composite unit has its dimension. In mechanics this needs the exponents
that single out the family: mass to the power one over time squared, no other base but length, and
a whole power of length, which the representatives are listed by. In electricity the dimensions are
compared outright. The representatives of mechanics that are composite stand for themselves, and the
other ones have no representative.

## Main definitions

* `MeasureUnit.IsMechanical`: a unit measures force times a whole power of length.
* `MeasureUnit.mechanicalTerms`: the powers of symbols that a representative of mechanics is the
  product of.

## Main results

* `MeasureUnit.representative?_cases`: which units are representatives.
* `MeasureUnit.sharesDimension_of_representative?`: a representative has the dimension of the unit.
* `MeasureUnit.representative?_of_representative?`: it has no representative but itself.
-/

import UnitCalc.Proofs.Measure.RoundTrip
import UnitCalc.Proofs.Number.Comparison
import UnitCalc.Quantity.Target

noncomputable section

namespace UnitCalc

open Number (IsWhole)

/-! ## Equal dimensions -/

namespace Dimension

variable {E : Type} [BEq E] {d e : Dimension E}

theorem exponent_beq (same : (d == e) = true) (k : Fin 9) :
    (d.exponent k == e.exponent k) = true := by
  have all : ((d.time == e.time) && (d.length == e.length) && (d.mass == e.mass) &&
      (d.current == e.current) && (d.temperature == e.temperature) && (d.amount == e.amount) &&
      (d.luminosity == e.luminosity) && (d.angle == e.angle) && (d.custom == e.custom)) = true :=
    same
  simp only [Bool.and_eq_true] at all
  obtain ⟨⟨⟨⟨⟨⟨⟨⟨time, length⟩, mass⟩, current⟩, temperature⟩, amount⟩, luminosity⟩, angle⟩,
    custom⟩ := all
  fin_cases k <;> assumption

instance [PartialEquivBEq E] : PartialEquivBEq (Dimension E) where
  symm same := beq_of_exponent fun k => BEq.symm (exponent_beq same k)
  trans first second := beq_of_exponent fun k =>
    BEq.trans (exponent_beq first k) (exponent_beq second k)

end Dimension

namespace MeasureUnit

section

variable {R E : Type} [Exponent E] [PartialEquivBEq E] {a b c : MeasureUnit R E}

theorem sharesDimension_symm (same : a.sharesDimension b = true) : b.sharesDimension a = true :=
  PartialEquivBEq.symm same

theorem sharesDimension_trans (first : a.sharesDimension b = true)
    (second : b.sharesDimension c = true) : a.sharesDimension c = true :=
  PartialEquivBEq.trans first second

/-- Units of one dimension measure temperature together. -/
theorem isTemperature_congr (same : a.sharesDimension b = true) :
    a.isTemperature = b.isTemperature :=
  BEq.congr_left (show (a.dimension == b.dimension) = true from same)

/-- Units of one dimension belong to one family. -/
theorem field_congr (same : a.sharesDimension b = true) : a.field = b.field := by
  have exponents (k : Fin 9) (e : E) :
      (a.dimension.exponent k == e) = (b.dimension.exponent k == e) :=
    BEq.congr_left (Dimension.exponent_beq same k)
  have time (e : E) : (a.dimension.time == e) = (b.dimension.time == e) := exponents 0 e
  have length (e : E) : (a.dimension.length == e) = (b.dimension.length == e) := exponents 1 e
  have mass (e : E) : (a.dimension.mass == e) = (b.dimension.mass == e) := exponents 2 e
  have current (e : E) : (a.dimension.current == e) = (b.dimension.current == e) := exponents 3 e
  have others : (a.dimension.temperature == 0 && a.dimension.amount == 0 &&
      a.dimension.luminosity == 0 && a.dimension.angle == 0 && a.dimension.custom == 0) =
      (b.dimension.temperature == 0 && b.dimension.amount == 0 &&
        b.dimension.luminosity == 0 && b.dimension.angle == 0 && b.dimension.custom == 0) := by
    show (a.dimension.exponent 4 == _ && a.dimension.exponent 5 == _ &&
      a.dimension.exponent 6 == _ && a.dimension.exponent 7 == _ &&
      a.dimension.exponent 8 == _) = _
    simp only [exponents]
    rfl
  simp only [field, bne, others, time, length, mass, current]

end

/-! ## Mechanics -/

variable {u v : MeasureUnit ℝ Float32} {n : ℤ}

/-- The exponents of mass times length to this power over time squared. -/
def mechanicalDimension (n : ℤ) : Fin 9 → ℤ :=
  ![-2, n, 1, 0, 0, 0, 0, 0, 0]

/-- The unit measures mass times length to this power over time squared: a force, times a power of
length that is one less. -/
def IsMechanical (u : MeasureUnit ℝ Float32) (n : ℤ) : Prop :=
  ∀ k, IsWhole (u.dimension.exponent k) (mechanicalDimension n k)

theorem IsMechanical.sharesDimension (left : u.IsMechanical n) (right : v.IsMechanical n) :
    u.sharesDimension v = true :=
  Dimension.beq_of_exponent fun k => ((left k).beq_iff (right k)).2 rfl

/-- The family of mechanics fixes all exponents but that of length. -/
theorem IsMechanical.of_field (family : u.field = .mechanical)
    (power : Exponent.toInt? u.dimension.length = some n) (small : n.natAbs < 2 ^ 24) :
    u.IsMechanical n := by
  have two : IsWhole (-(1 + 1) : Float32) (-2) := (IsWhole.one.add .one (by decide)).neg
  rw [field] at family
  split_ifs at family with others electrical mechanical
  simp only [Bool.not_eq_true, Bool.not_eq_false', Bool.and_eq_true, Bool.or_eq_true, not_or, bne]
    at others electrical mechanical
  obtain ⟨⟨⟨⟨temperature, amount⟩, luminosity⟩, angle⟩, custom⟩ := others
  intro k
  fin_cases k
  · exact .of_beq mechanical.2 two
  · exact .of_toInt? power small
  · exact .of_beq mechanical.1 .one
  · exact .of_beq electrical.1 .zero
  · exact .of_beq temperature .zero
  · exact .of_beq amount .zero
  · exact .of_beq luminosity .zero
  · exact .of_beq angle .zero
  · exact .of_beq custom .zero

/-- The powers of symbols that a representative unit of mechanics is the product of. -/
def mechanicalTerms (n : ℤ) : List (String × ℤ) :=
  if n = -1 then [("kPa", 1)]
  else if n = 1 then [("kN", 1)]
  else if n = 2 then [("kNm", 1)]
  else [("kN", 1), ("m", n - 1)]

open Catalogue (IsSymbol)
open UnitTerm (powers powersOf word negated fraction raised under)

/-- The texts of the representatives are those of their powers. -/
theorem fraction_mechanicalTerms : ∀ p ∈ mechanicalUnits,
    fraction ((raised (mechanicalTerms p.1)).map word)
      ((under (mechanicalTerms p.1)).map fun p => word (negated p)) = p.2 := by
  decide

theorem readable_mechanicalTerms : ∀ p ∈ mechanicalUnits, Readable (mechanicalTerms p.1) := by
  have known : ∀ p ∈ mechanicalUnits, ∀ q ∈ mechanicalTerms p.1, IsSymbol q.1 := by
    unfold IsSymbol
    decide +kernel
  have distinct : ∀ p ∈ mechanicalUnits, ((mechanicalTerms p.1).map Prod.fst).Nodup := by decide
  have few : ∀ p ∈ mechanicalUnits, ∀ q ∈ mechanicalTerms p.1, q.2 ≠ 0 ∧ q.2.natAbs < 2 ^ 3 := by
    decide
  have total : ∀ p ∈ mechanicalUnits,
      ((mechanicalTerms p.1).map fun q => q.2.natAbs).sum < 2 ^ 3 := by
    decide
  intro p within
  exact
    { known := known p within
      nonzero := fun q here => (few p within q here).1
      small := fun q here => lt_trans (few p within q here).2 (by decide)
      distinct := distinct p within
      dimension := fun part inside => by
        refine (IsBounded.of_sum ((distinct p within).sublist (inside.map _)) ?_).dimension
        have less := (inside.map fun q => q.2.natAbs).sum_le_sum fun n _ => Nat.zero_le n
        exact lt_of_le_of_lt less (lt_trans (total p within) (by decide)) }

theorem exactDimension_mechanicalTerms : ∀ p ∈ mechanicalUnits, ∀ k,
    exactDimension (powersOf (mechanicalTerms p.1)) k = mechanicalDimension p.1 k := by
  simp only [exactDimension_powersOf]
  decide +kernel

theorem mem_mechanicalUnits {text : String} (listed : mechanicalUnits.lookup n = some text) :
    (n, text) ∈ mechanicalUnits := by
  obtain ⟨before, behind, split, -⟩ := List.lookup_eq_some_iff.1 listed
  rw [split]
  exact List.mem_append_right _ (.head _)

/-- The text of a representative of mechanics is read as a unit of mechanics. -/
theorem exists_parse_mechanical {text : String} (listed : mechanicalUnits.lookup n = some text) :
    ∃ v : MeasureUnit ℝ Float32, Catalogue.parse text = .ok v ∧ v.IsMechanical n ∧
      0 < v.factor := by
  have within := mem_mechanicalUnits listed
  have nonempty : mechanicalTerms n ≠ [] := by
    rw [mechanicalTerms]
    split_ifs <;> exact List.cons_ne_nil _ _
  have readable := readable_mechanicalTerms _ within
  obtain ⟨v, denotes, product, pairs⟩ := reads_fraction nonempty readable
  have spelled := fraction_mechanicalTerms _ within
  dsimp only at spelled
  rw [spelled] at denotes
  have powers : powers v.terms = powersOf (mechanicalTerms n) := by
    rw [powers, pairs]
    exact UnitTerm.powersOf_perm (UnitTerm.raised_append_under readable.nonzero)
  refine ⟨v, denotes.parse, fun k => ?_, product.positive⟩
  have whole := product.dimension k
  rwa [powers, exactDimension_mechanicalTerms _ within] at whole

/-! ## Representatives -/

/-- Representatives are those of mechanics, by the power of length, or the symbol of electricity
that has the dimension of the unit. -/
theorem representative?_cases (represents : u.representative? = some v) :
    (∃ n text, u.field = .mechanical ∧ Exponent.toInt? u.dimension.length = some n ∧
      mechanicalUnits.lookup n = some text ∧ Catalogue.parse text = .ok v) ∨
    ∃ symbol ∈ electricalUnits, Catalogue.find? symbol = some v ∧ v.sharesDimension u = true := by
  rw [representative?] at represents
  split at represents
  · cases represents
  · split at represents
    -- The table of mechanics is asked for the power of length, and its text is read.
    · next family =>
      obtain ⟨n, power, rest⟩ := Option.bind_eq_some_iff.1 represents
      obtain ⟨text, listed, parsed⟩ := Option.bind_eq_some_iff.1 rest
      refine .inl ⟨n, text, family, power, listed, ?_⟩
      cases read : Catalogue.parse (R := ℝ) (E := Float32) text with
      | error e =>
        rw [read] at parsed
        cases parsed
      | ok w =>
        rw [read] at parsed
        exact congrArg Except.ok (Option.some.inj parsed)
    -- The symbols of electricity are compared one after the other.
    · split at represents
      · cases represents
      · have shares := List.find?_some represents
        obtain ⟨symbol, within, found⟩ :=
          List.mem_filterMap.1 (List.mem_of_find?_eq_some represents)
        exact .inr ⟨symbol, within, found, shares⟩
    · cases represents

/-- A unit of mechanics that has a representative, and its representative, measure the same. -/
theorem isMechanical_of_lookup {text : String} (family : u.field = .mechanical)
    (power : Exponent.toInt? u.dimension.length = some n)
    (listed : mechanicalUnits.lookup n = some text) (parsed : Catalogue.parse text = .ok v) :
    u.IsMechanical n ∧ v.IsMechanical n ∧ 0 < v.factor := by
  have small : ∀ p ∈ mechanicalUnits, p.1.natAbs < 2 ^ 24 := by decide
  obtain ⟨w, parsed', mechanical, positive⟩ := exists_parse_mechanical listed
  obtain rfl : w = v := Except.ok.inj (parsed'.symm.trans parsed)
  exact ⟨.of_field family power (small _ (mem_mechanicalUnits listed)), mechanical, positive⟩

/-- A representative unit has the dimension of the unit it represents. -/
theorem sharesDimension_of_representative? (represents : u.representative? = some v) :
    v.sharesDimension u = true := by
  rcases representative?_cases represents with
    ⟨n, text, family, power, listed, parsed⟩ | ⟨symbol, within, found, shares⟩
  · obtain ⟨mechanical, mechanical', -⟩ := isMechanical_of_lookup family power listed parsed
    exact mechanical'.sharesDimension mechanical
  · exact shares

theorem factor_pos_of_representative? (represents : u.representative? = some v) : 0 < v.factor := by
  rcases representative?_cases represents with
    ⟨n, text, family, power, listed, parsed⟩ | ⟨symbol, within, found, shares⟩
  · exact (isMechanical_of_lookup family power listed parsed).2.2
  · exact Catalogue.factor_pos found

/-- A representative unit is composite and represents itself, or it has no representative. -/
theorem representative?_of_representative? (represents : u.representative? = some v) :
    v.representative? = none ∨ v.representative? = some v := by
  by_cases composite : v.isComposite = true
  · rcases representative?_cases represents with
      ⟨n, text, family, power, listed, parsed⟩ | ⟨symbol, within, found, shares⟩
    -- The representative has the family and the length of the unit, so it is found for itself.
    · obtain ⟨mechanical, mechanical', -⟩ := isMechanical_of_lookup family power listed parsed
      have family' : v.field = .mechanical :=
        (field_congr (mechanical'.sharesDimension mechanical)).trans family
      have power' : Exponent.toInt? v.dimension.length = some n := (mechanical' 1).toInt?_eq
      refine .inr ?_
      rw [representative?, composite, family']
      show (do
        let power ← Exponent.toInt? v.dimension.length
        let text ← mechanicalUnits.lookup power
        (Catalogue.parse text).toOption) = some v
      rw [power', Option.bind_eq_bind, Option.bind_some, listed]
      exact congrArg Except.toOption parsed
    -- The symbols of electricity are not composite.
    · have plain : ∀ symbol ∈ electricalUnits,
          (symbol.toList.any fun c => c == '·' || c == '/' || c == '^') = false := by
        decide
      obtain ⟨_, -, -, -, -, named⟩ := Catalogue.exists_parts found
      have text : v.text = symbol := by
        rw [named]
        rfl
      rw [isComposite, text, plain symbol within] at composite
      cases composite
  · refine .inl ?_
    rw [representative?, Bool.eq_false_of_not_eq_true composite]
    rfl

end MeasureUnit

end UnitCalc

end
