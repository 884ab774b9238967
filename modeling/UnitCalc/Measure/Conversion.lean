/-
# Conversion between units

Two quantities combine when their units have the same dimension; a plain number
combines with a scaled number such as a percent. Temperatures need an offset
besides the factor.
-/

import UnitCalc.Measure.Error
import UnitCalc.Measure.Unit

namespace UnitCalc

variable {R E : Type} [Scalar R] [Exponent E]

/-- The factor that takes a number in the second unit into the first, if `op` can
combine the two. -/
def conversion (a b : Option (MeasureUnit R E)) (op : Char) : Except MeasureError R :=
  match a, b with
  | none, none => .ok 1
  | some a, some b =>
    if a == b then .ok 1
    else if a.sharesDimension b then .ok (b.factorTo a)
    else .error (.inconsistent a.text op b.text)
  | some a, none =>
    if a.isDimensionless then .ok (1 / a.factor)
    else .error (.inconsistent a.text op (unitText (none : Option (MeasureUnit R E))))
  | none, some b =>
    if b.isDimensionless then .ok b.factor
    else .error (.inconsistent (unitText (none : Option (MeasureUnit R E))) op b.text)

/-- What is added after scaling when a temperature goes from the first scale to
the second. -/
def temperatureOffset (source target : String) : R :=
  match source, target with
  | "°C", "K" => 273.15
  | "°C", "°F" => 32.0
  | "°C", "°R" => 491.67
  | "K", "°C" => -273.15
  | "K", "°F" => -459.67
  | "°F", "°C" => -17.0
  | "°F", "K" => 255.372222222222
  | "°F", "°R" => 459.67
  | "°R", "°C" => -273.15
  | "°R", "°F" => -459.67
  | _, _ => 0

end UnitCalc
