/-
# Built-in units

The units that are known by symbol: those of the International System with their
metric prefixes, and the common units of length, mass, time, pressure, energy,
angle and so on. A symbol of the table wins over a prefixed one, so `min` is a
minute and `cd` a candela.
-/

import UnitCalc.Measure.Expression

namespace UnitCalc.Catalogue

variable {R E : Type} [Scalar R] [Exponent E] [Narrowing R E]

/-- Symbol, dimension, factor to the coherent unit, and whether metric prefixes
apply. -/
structure Entry (R E : Type) where
  symbol : String
  dimension : Dimension E
  factor : R
  prefixed : Bool := false

/-- The dimension of the given powers of second, metre, kilogram and ampere. -/
private def electric (s m kg a : E) : Dimension E :=
  { (Dimension.none : Dimension E) with time := s, length := m, mass := kg, current := a }

/-- The dimension of the given powers of second, metre and kilogram. -/
private def mechanic (s m kg : E) : Dimension E :=
  electric s m kg 0

/-- The table of symbols. -/
def table : List (Entry R E) :=
  let two : E := 1 + 1
  let three : E := two + 1
  let four : E := two + two
  let mass : Dimension E := mechanic 0 0 1
  let length : Dimension E := mechanic 0 1 0
  let area : Dimension E := mechanic 0 two 0
  let volume : Dimension E := mechanic 0 three 0
  let time : Dimension E := mechanic 1 0 0
  let frequency : Dimension E := mechanic (-1) 0 0
  let speed : Dimension E := mechanic (-1) 1 0
  let force : Dimension E := mechanic (-two) 1 1
  let energy : Dimension E := mechanic (-two) two 1
  let pressure : Dimension E := mechanic (-two) (-1) 1
  let power : Dimension E := mechanic (-three) two 1
  let dose : Dimension E := mechanic (-two) two 0
  let current : Dimension E := electric 0 0 0 1
  let charge : Dimension E := electric 1 0 0 1
  let temperature : Dimension E := { (Dimension.none : Dimension E) with temperature := 1 }
  let amount : Dimension E := { (Dimension.none : Dimension E) with amount := 1 }
  let luminosity : Dimension E := { (Dimension.none : Dimension E) with luminosity := 1 }
  let angle : Dimension E := { (Dimension.none : Dimension E) with angle := 1 }
  let none : Dimension E := Dimension.none
  let g : R := 9.80665
  let pound : R := 0.45359237
  let inch : R := 0.0254
  let pi : R := Scalar.pi
  [⟨"g", mass, 1e-3, true⟩,
   ⟨"t", mass, 1e3, false⟩,
   ⟨"lb", mass, pound, false⟩,
   ⟨"oz", mass, pound / 16.0, false⟩,
   ⟨"m", length, 1, true⟩,
   ⟨"in", length, inch, false⟩,
   ⟨"ft", length, 12.0 * inch, false⟩,
   ⟨"yd", length, 36.0 * inch, false⟩,
   ⟨"mi", length, 1609.344, false⟩,
   ⟨"nmi", length, 1852.0, false⟩,
   ⟨"a", area, 100.0, false⟩,
   ⟨"ha", area, 1e4, false⟩,
   ⟨"L", volume, 1e-3, true⟩,
   ⟨"gal", volume, 3.785411784e-3, false⟩,
   ⟨"s", time, 1, true⟩,
   ⟨"min", time, 60.0, false⟩,
   ⟨"h", time, 3600.0, false⟩,
   ⟨"d", time, 86400.0, false⟩,
   ⟨"w", time, 604800.0, false⟩,
   ⟨"y", time, 31556952.0, false⟩,
   ⟨"Hz", frequency, 1, true⟩,
   ⟨"rpm", frequency, 1 / 60.0, false⟩,
   ⟨"kmh", speed, 1 / 3.6, false⟩,
   ⟨"mph", speed, 1609.344 / 3600.0, false⟩,
   ⟨"knot", speed, 1852.0 / 3600.0, false⟩,
   ⟨"A", current, 1, true⟩,
   ⟨"Ah", charge, 3600.0, false⟩,
   ⟨"K", temperature, 1, false⟩,
   ⟨"°C", temperature, 1, false⟩,
   ⟨"Δ°C", temperature, 1, false⟩,
   ⟨"°F", temperature, 5.0 / 9.0, false⟩,
   ⟨"Δ°F", temperature, 5.0 / 9.0, false⟩,
   ⟨"°R", temperature, 5.0 / 9.0, false⟩,
   ⟨"mol", amount, 1, true⟩,
   ⟨"cd", luminosity, 1, false⟩,
   ⟨"N", force, 1, true⟩,
   ⟨"kgf", force, g, false⟩,
   ⟨"tf", force, g * 1e3, false⟩,
   ⟨"lbf", force, g * pound, false⟩,
   ⟨"kip", force, g * pound * 1e3, false⟩,
   ⟨"dyn", force, 1e-5, false⟩,
   ⟨"Nm", energy, 1, false⟩,
   ⟨"kNm", energy, 1e3, false⟩,
   ⟨"Pa", pressure, 1, true⟩,
   ⟨"bar", pressure, 1e5, true⟩,
   ⟨"atm", pressure, 101325.0, false⟩,
   ⟨"at", pressure, g * 1e4, false⟩,
   ⟨"psi", pressure, g * pound / (inch * inch), false⟩,
   ⟨"ksi", pressure, g * pound * 1e3 / (inch * inch), false⟩,
   ⟨"mmHg", pressure, 133.322387415, false⟩,
   ⟨"J", energy, 1, true⟩,
   ⟨"Wh", energy, 3600.0, true⟩,
   ⟨"eV", energy, 1.602176634e-19, true⟩,
   ⟨"cal", energy, 4.1868, false⟩,
   ⟨"kcal", energy, 4186.8, false⟩,
   ⟨"BTU", energy, 1055.05585262, false⟩,
   ⟨"W", power, 1, true⟩,
   ⟨"VA", power, 1, true⟩,
   ⟨"hp", power, 745.69987158227, false⟩,
   ⟨"C", charge, 1, true⟩,
   ⟨"V", electric (-three) two 1 (-1), 1, true⟩,
   ⟨"F", electric four (-two) (-1) two, 1, true⟩,
   ⟨"Ω", electric (-three) two 1 (-two), 1, true⟩,
   ⟨"S", electric three (-two) (-1) two, 1, true⟩,
   ⟨"Wb", electric (-two) two 1 (-1), 1, true⟩,
   ⟨"T", electric (-two) 0 1 (-1), 1, true⟩,
   ⟨"H", electric (-two) two 1 (-two), 1, true⟩,
   ⟨"Bq", frequency, 1, false⟩,
   ⟨"Gy", dose, 1, false⟩,
   ⟨"Sv", dose, 1, false⟩,
   ⟨"rad", angle, 1, false⟩,
   ⟨"deg", angle, pi / 180.0, false⟩,
   ⟨"°", angle, pi / 180.0, false⟩,
   ⟨"′", angle, pi / 10800.0, false⟩,
   ⟨"″", angle, pi / 648000.0, false⟩,
   ⟨"grad", angle, pi / 200.0, false⟩,
   ⟨"rev", angle, 2.0 * pi, false⟩,
   ⟨"%", none, 1e-2, false⟩,
   ⟨"‰", none, 1e-3, false⟩,
   ⟨"‱", none, 1e-4, false⟩]

/-- The metric prefixes with their powers of ten. -/
def prefixes : List (String × Int) :=
  [("p", -12), ("n", -9), ("μ", -6), ("m", -3), ("c", -2), ("d", -1), ("da", 1), ("h", 2),
    ("k", 3), ("M", 6), ("G", 9), ("T", 12)]

/-- The unit of an entry. -/
def Entry.unit (e : Entry R E) : MeasureUnit R E :=
  .named e.symbol e.dimension e.factor

/-- The prefixed units of an entry. -/
def Entry.prefixedUnits (e : Entry R E) : List (MeasureUnit R E) :=
  if e.prefixed then
    prefixes.map fun (symbol, power) =>
      .named (symbol ++ e.symbol) e.dimension (e.factor * Scalar.powInt 10.0 power)
  else []

/-- All built-in units; the symbols of the table come first. -/
def units : List (MeasureUnit R E) :=
  table.map Entry.unit ++ table.flatMap Entry.prefixedUnits

/-- The first built-in unit with this symbol. -/
@[inline] def find? (symbol : String) : Option (MeasureUnit R E) :=
  units.find? fun u => u.text == symbol

/-- The unit that an expression of built-in units denotes. -/
@[inline] def parse (s : String) : Except MeasureError (MeasureUnit R E) :=
  MeasureUnit.parse find? s

end UnitCalc.Catalogue
