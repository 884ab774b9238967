/-
# Conversion of results

In exact arithmetic a conversion changes the unit that a result is expressed in, and not what it
measures: its magnitude in coherent units and its dimension stay, a second conversion into the same
unit changes nothing, and neither does a conversion in front of another one. This holds with a
target as without one, where composite results of mechanics and electricity get their representative
units. So it does not matter in which unit a function gives its value, when the statement that calls
it asks for a unit of its own.

Temperatures are left out, since they are also shifted. A unit that is defined during a session can
have the factor zero, and nothing can be expressed in it.

## Main definitions

* `Quantity.expressedIn`: a quantity in another unit of its dimension.
* `MeasureUnit.Reaches`: what measures a unit can be expressed in a target.

## Main results

* `Quantity.expressedIn_expressedIn`: conversions one after the other are one conversion.
* `Quantity.exists_applyTarget`: what a conversion gives.
* `Quantity.conversions_coherent`: conversions keep the magnitude and the dimension, and the last
  one decides.
-/

import UnitCalc.Proofs.Method.Products
import UnitCalc.Proofs.Quantity.Representatives

noncomputable section

namespace UnitCalc

/-- What is counted in the unit can be expressed in the target: the target has the dimension of the
unit, and a factor to divide by. -/
def MeasureUnit.Reaches (u : MeasureUnit ℝ Float32) (target : Option (MeasureUnit ℝ Float32)) :
    Prop :=
  ∀ t ∈ target, u.sharesDimension t = true ∧ t.factor ≠ 0

namespace Quantity

variable {q r : Quantity ℝ Float32} {u v t last : MeasureUnit ℝ Float32}
  {target : Option (MeasureUnit ℝ Float32)}

/-! ## Counting in another unit -/

/-- A quantity that is counted in the first unit, counted in the second one. -/
def expressedIn (q : Quantity ℝ Float32) (u t : MeasureUnit ℝ Float32) : Quantity ℝ Float32 :=
  { num := q.num.scale (u.factorTo t), unit := some t }

/-- The unit a quantity was counted in before does not show. -/
theorem expressedIn_expressedIn (nonzero : t.factor ≠ 0) :
    (q.expressedIn u t).expressedIn t v = q.expressedIn u v := by
  have factor : u.factorTo t * t.factorTo v = u.factorTo v := div_mul_div_cancel₀ nonzero
  rw [expressedIn, expressedIn, expressedIn, Complex.scale_scale, factor]

theorem si_expressedIn (unit : q.unit = some u) (nonzero : t.factor ≠ 0) :
    (q.expressedIn u t).si = q.si := by
  have factor : u.factorTo t * t.factor = u.factor := div_mul_cancel₀ _ nonzero
  have coherent : q.si = q.num.scale u.factor := by rw [si, unit]
  rw [coherent, ← factor, ← Complex.scale_scale]
  rfl

/-! ## Conversions -/

/-- A target of the dimension of the unit is the unit of the result. -/
theorem applyTarget_some (unit : q.unit = some u) (absolute : u.isTemperature = false)
    (shares : u.sharesDimension t = true) : q.applyTarget (some t) = .ok (q.expressedIn u t) := by
  have unshifted : t.isTemperature = false :=
    (MeasureUnit.isTemperature_congr shares).symm.trans absolute
  have converted : q.convertedNumber u t = q.num.scale (u.factorTo t) := by
    rw [convertedNumber, unshifted]
    rfl
  rw [applyTarget, inTarget, unit]
  dsimp only
  rw [shares, converted]
  rfl

theorem routed_of_none (unit : q.unit = some u) (lacks : u.representative? = none) :
    q.routed = q := by
  rw [routed, unit]
  dsimp only
  rw [lacks]

theorem routed_of_some (unit : q.unit = some u) (represents : u.representative? = some v) :
    q.routed = q.expressedIn u v := by
  rw [routed, unit]
  dsimp only
  rw [represents]
  rfl

/-- A result has its representative unit, if any, after one conversion. -/
theorem routed_routed (unit : q.unit = some u) : q.routed.routed = q.routed := by
  cases represents : u.representative? with
  | none => rw [routed_of_none unit represents, routed_of_none unit represents]
  | some v =>
    rw [routed_of_some unit represents]
    rcases MeasureUnit.representative?_of_representative? represents with lacks | itself
    · exact routed_of_none rfl lacks
    · rw [routed_of_some (q := q.expressedIn u v) rfl itself]
      exact expressedIn_expressedIn (MeasureUnit.factor_pos_of_representative? represents).ne'

/-- A conversion that is not refused gives the quantity itself, or it counts the quantity in a unit
of its dimension. -/
theorem exists_applyTarget (unit : q.unit = some u) (absolute : u.isTemperature = false)
    (reaches : u.Reaches target) : ∃ r, q.applyTarget target = .ok r ∧
      (r = q ∨ ∃ t, u.sharesDimension t = true ∧ t.factor ≠ 0 ∧ r = q.expressedIn u t) := by
  cases target with
  | some t =>
    obtain ⟨shares, nonzero⟩ := reaches t rfl
    exact ⟨_, applyTarget_some unit absolute shares, .inr ⟨t, shares, nonzero, rfl⟩⟩
  | none =>
    refine ⟨_, rfl, ?_⟩
    cases represents : u.representative? with
    | none => exact .inl (routed_of_none unit represents)
    | some v =>
      have shares := MeasureUnit.sharesDimension_of_representative? represents
      exact .inr ⟨v, MeasureUnit.sharesDimension_symm shares,
        (MeasureUnit.factor_pos_of_representative? represents).ne', routed_of_some unit represents⟩

/-- A conversion does not show in the result of the next one. -/
theorem applyTarget_of_counted (unit : q.unit = some u) (absolute : u.isTemperature = false)
    (counted : r = q ∨ ∃ t, u.sharesDimension t = true ∧ t.factor ≠ 0 ∧ r = q.expressedIn u t)
    (shares : u.sharesDimension last = true) :
    r.applyTarget (some last) = q.applyTarget (some last) := by
  rcases counted with rfl | ⟨t, same, nonzero, rfl⟩
  · rfl
  · have absolute' : t.isTemperature = false :=
      (MeasureUnit.isTemperature_congr same).symm.trans absolute
    have shares' : t.sharesDimension last = true :=
      MeasureUnit.sharesDimension_trans (MeasureUnit.sharesDimension_symm same) shares
    rw [applyTarget_some rfl absolute' shares', applyTarget_some unit absolute shares,
      expressedIn_expressedIn nonzero]

/-- Conversion is coherent. For a quantity whose unit is no temperature, a conversion with a target
or without one gives a result of the same magnitude in coherent units and of the same dimension, the
same conversion does not change that result, and each further target gives what it gives for the
quantity itself. So a target that a function has of its own never shows in the result of a statement
with a target. -/
theorem conversions_coherent (unit : q.unit = some u) (absolute : u.isTemperature = false) :
    (∀ target, u.Reaches target → ∃ r v, q.applyTarget target = .ok r ∧
      r.unit = some v ∧ (v.dimension = u.dimension ∨ v.sharesDimension u = true) ∧
      r.si = q.si ∧ r.applyTarget target = .ok r) ∧
    ∀ target last, u.Reaches target → u.Reaches (some last) →
      (do
        let r ← q.applyTarget target
        r.applyTarget (some last)) = q.applyTarget (some last) := by
  constructor
  · intro target reaches
    obtain ⟨r, converted, counted⟩ := exists_applyTarget unit absolute reaches
    have again : r.applyTarget target = .ok r := by
      cases target with
      | none =>
        obtain rfl : q.routed = r := Except.ok.inj converted
        exact congrArg Except.ok (routed_routed unit)
      | some t =>
        rw [applyTarget_of_counted unit absolute counted (reaches t rfl).1, converted]
    rcases counted with rfl | ⟨t, shares, nonzero, rfl⟩
    · exact ⟨_, u, converted, unit, .inl rfl, rfl, again⟩
    · exact ⟨_, t, converted, rfl, .inr (MeasureUnit.sharesDimension_symm shares),
        si_expressedIn unit nonzero, again⟩
  · intro target last reaches reaches'
    obtain ⟨r, converted, counted⟩ := exists_applyTarget unit absolute reaches
    rw [converted]
    exact applyTarget_of_counted unit absolute counted (reaches' last rfl).1

/-- Five newton metres have a representative, kilonewton metres, and are converted through watt
hours into joules. -/
theorem conversions_coherent_torque : ∃ (u joule wattHour : MeasureUnit ℝ Float32)
    (q : Quantity ℝ Float32), u.text = "N·m" ∧ Catalogue.find? "J" = some joule ∧
    Catalogue.find? "Wh" = some wattHour ∧ q = { num := .ofReal 5, unit := some u } ∧
    u.isTemperature = false ∧ u.Reaches none ∧ u.Reaches (some joule) ∧
    u.Reaches (some wattHour) ∧
    (∃ r v, q.applyTarget none = .ok r ∧ r.unit = some v ∧
      (v.dimension = u.dimension ∨ v.sharesDimension u = true) ∧ r.si = q.si ∧
      r.applyTarget none = .ok r) ∧
    (do
      let r ← q.applyTarget (some wattHour)
      r.applyTarget (some joule)) = q.applyTarget (some joule) := by
  obtain ⟨newton, foundNewton⟩ : ∃ u : MeasureUnit ℝ Float32, Catalogue.find? "N" = some u :=
    ⟨_, rfl⟩
  obtain ⟨metre, foundMetre⟩ : ∃ u : MeasureUnit ℝ Float32, Catalogue.find? "m" = some u :=
    ⟨_, rfl⟩
  obtain ⟨joule, foundJoule⟩ : ∃ u : MeasureUnit ℝ Float32, Catalogue.find? "J" = some u :=
    ⟨_, rfl⟩
  obtain ⟨wattHour, foundWattHour⟩ : ∃ u : MeasureUnit ℝ Float32, Catalogue.find? "Wh" = some u :=
    ⟨_, rfl⟩
  have torque : (newton.join metre).text = "N·m" ∧ (newton.join metre).isTemperature = false ∧
      (newton.join metre).sharesDimension joule = true ∧
      (newton.join metre).sharesDimension wattHour = true := by
    cases foundNewton
    cases foundMetre
    cases foundJoule
    cases foundWattHour
    decide +kernel
  obtain ⟨text, absolute, shares, shares'⟩ := torque
  have nothing : (newton.join metre).Reaches none := fun t asked => absurd asked nofun
  have inJoules : (newton.join metre).Reaches (some joule) := by
    rintro _ ⟨⟩
    exact ⟨shares, (Catalogue.factor_pos foundJoule).ne'⟩
  have inWattHours : (newton.join metre).Reaches (some wattHour) := by
    rintro _ ⟨⟩
    exact ⟨shares', (Catalogue.factor_pos foundWattHour).ne'⟩
  obtain ⟨each, through⟩ := conversions_coherent
    (q := { num := .ofReal 5, unit := some (newton.join metre) }) rfl absolute
  exact ⟨_, joule, wattHour, _, text, foundJoule, foundWattHour, rfl, absolute, nothing, inJoules,
    inWattHours, each none nothing, through (some wattHour) joule inWattHours inJoules⟩

/-! ## A target without a factor -/

namespace Worthless

/-- A unit that was defined as one. -/
def pound : MeasureUnit ℝ Float32 :=
  .named "£" .currency 1

/-- A unit that was defined as zero. -/
def euro : MeasureUnit ℝ Float32 :=
  .named "€" .currency 0

def fivePounds : Quantity ℝ Float32 :=
  { num := .ofReal 5, unit := some pound }

/-- Nothing can be expressed in a unit that was defined as zero, although it has the dimension of
the others: the magnitude is lost, and further conversions do not bring it back. -/
theorem through_zero_factor :
    fivePounds.unit = some pound ∧ 0 < pound.factor ∧ pound.isTemperature = false ∧
    pound.sharesDimension euro = true ∧ pound.sharesDimension pound = true ∧
    ∃ r, fivePounds.applyTarget (some euro) = .ok r ∧ r.si ≠ fivePounds.si ∧
      r.applyTarget (some pound) ≠ fivePounds.applyTarget (some pound) := by
  have absolute : pound.isTemperature = false := by decide +kernel
  have shares : pound.sharesDimension euro = true := by decide +kernel
  have itself : pound.sharesDimension pound = true := by decide +kernel
  have absolute' : euro.isTemperature = false := by decide +kernel
  have shares' : euro.sharesDimension pound = true := by decide +kernel
  refine ⟨rfl, one_pos, absolute, shares, itself, _, applyTarget_some rfl absolute shares, ?_, ?_⟩
  · intro same
    have re : (5 : ℝ) * (1 / 0) * 0 = 5 * 1 := congrArg Complex.re same
    norm_num at re
  · intro same
    rw [applyTarget_some rfl absolute' shares', applyTarget_some rfl absolute itself] at same
    have re : (5 : ℝ) * (1 / 0) * (0 / 1) = 5 * (1 / 1) :=
      congrArg (fun q : Quantity ℝ Float32 => q.num.re) (Except.ok.inj same)
    norm_num at re

end Worthless

end Quantity

end UnitCalc

end
