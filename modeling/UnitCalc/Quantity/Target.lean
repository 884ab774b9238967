/-
# Target units

The result of a statement is converted into the unit the statement asks for. When
it asks for none, composite results of mechanics and electricity are expressed in
the usual unit of their dimension, such as `kN/m` or `V`.

## Main definitions

* `Quantity.inTarget` converts a quantity into a given unit.
* `Quantity.routed` rewrites a composite unit of mechanics or electricity.
* `Quantity.applyTarget` does either.
-/

import UnitCalc.Quantity.Basic

namespace UnitCalc

variable {R E : Type} [Scalar R] [Exponent E] [Narrowing R E]

/-- The representative units of mechanics. Force is mass times length to the power one
over time squared, so the powers of length run from minus three to five. -/
def mechanicalUnits : List (Int × String) :=
  [(-3, "kN/m^4"), (-2, "kN/m^3"), (-1, "kPa"), (0, "kN/m"), (1, "kN"), (2, "kNm"),
    (3, "kN·m^2"), (4, "kN·m^3"), (5, "kN·m^4")]

/-- The representative units of electricity. -/
def electricalUnits : List String :=
  ["S", "F", "C", "T", "Ω", "V", "W", "H", "Wb"]

/-- The text starts with the symbol of apparent power, which is kept as it is. -/
private def isApparentPower (u : MeasureUnit R E) : Bool :=
  u.text.startsWith "VA"

/-- The representative unit of a composite unit of mechanics or electricity. -/
def MeasureUnit.representative? (u : MeasureUnit R E) : Option (MeasureUnit R E) :=
  if !u.isComposite then none
  else match u.field with
    | .mechanical => do
      let power ← Exponent.toInt? u.dimension.length
      let text ← mechanicalUnits.lookup power
      (Catalogue.parse text).toOption
    | .electrical =>
      if isApparentPower u then none
      else (electricalUnits.filterMap Catalogue.find?).find? fun v => v.sharesDimension u
    | .other => none

namespace Quantity

/-- Expresses a composite result of mechanics or electricity in its representative
unit. -/
def routed (q : Quantity R E) : Quantity R E :=
  match q.unit with
  | none => q
  | some u => match u.representative? with
    | some v => { num := q.num.scale (u.factorTo v), unit := some v }
    | none => q

/-- The number in the target unit; temperatures are also shifted. -/
def convertedNumber (q : Quantity R E) (u target : MeasureUnit R E) : Complex R :=
  let num := q.num.scale (u.factorTo target)
  if target.isTemperature then
    { num with re := num.re + temperatureOffset u.text target.text }
  else num

/-- Converts a quantity into the target unit. A plain number takes the unit on, and is
divided by its factor when the unit is a scaled number. -/
def inTarget (q : Quantity R E) (target : MeasureUnit R E) : Except CalcError (Quantity R E) :=
  match q.unit with
  | none =>
    let num := if target.isDimensionless then q.num.unscale target.factor else q.num
    .ok { num, unit := some target }
  | some u =>
    if !u.sharesDimension target then .error (.inconsistentTarget u.text target.text)
    else .ok { num := q.convertedNumber u target, unit := some target }

/-- Converts a quantity into the target unit, or into its representative unit when there
is no target. -/
def applyTarget (q : Quantity R E) : Option (MeasureUnit R E) → Except CalcError (Quantity R E)
  | some target => q.inTarget target
  | none => .ok q.routed

end Quantity

end UnitCalc
