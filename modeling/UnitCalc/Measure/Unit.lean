/-
# Units of measurement

A unit has a dimension, a factor that converts one of it into the coherent unit
of that dimension, and the terms it was built from. Units multiply and divide
without conversion by merging their terms, so `kN·m^2/s` keeps the names it was
written with.

## Main definitions

* `MeasureUnit` with `named`, `ofTerms`, `pow`, `scaled` and `join`.
* `MeasureUnit.multiply?` and `MeasureUnit.divide?` are the unit of a product and a
  quotient with the number that goes with it.
* `MeasureUnit.field` is the family of canonical units a composite unit belongs to.
-/

import UnitCalc.Measure.Dimension

namespace UnitCalc

/-- What a term of a unit is a power of: a named unit, or a number that scales. -/
inductive TermBase (R : Type) where
  | named (name : String)
  | number (k : R)

/-- A power of a named unit or of a number. -/
structure UnitTerm (R E : Type) where
  base : TermBase R
  exponent : E

namespace UnitTerm

variable {R E : Type} [Scalar R] [Exponent E]

/-- The name of the unit, or the number as text. Terms merge when their names are
equal. -/
def name (t : UnitTerm R E) : String :=
  match t.base with
  | .named name => name
  | .number k => Scalar.text k

/-- Integer exponents are written as 32 bit integers, other ones in full. -/
def exponentText (e : E) : String :=
  match Exponent.toInt? e with
  | some n => toString (max (-2147483648) (min n 2147483647))
  | none => Exponent.text e

/-- A name and its power; the power one is not written. -/
def powerText (name : String) (e : E) : String :=
  if e == 1 then name else name ++ "^" ++ exponentText e

/-- The terms with positive powers, then behind a slash those with negative ones. -/
def render (terms : List (UnitTerm R E)) : String :=
  let raised := terms.filter fun t => 0 < t.exponent
  let under := terms.filter fun t => t.exponent < 0
  let numerator := match raised with
    | [] => "1"
    | _ => "·".intercalate (raised.map fun t => powerText t.name t.exponent)
  match under.map fun t => powerText t.name (-t.exponent) with
  | [] => numerator
  | [single] => numerator ++ "/" ++ single
  | several => numerator ++ "/(" ++ "·".intercalate several ++ ")"

/-- Adds a term to a list: to the exponent of the first term of that name, or at
the end. -/
def merge (terms : List (UnitTerm R E)) (t : UnitTerm R E) : List (UnitTerm R E) :=
  match terms with
  | [] => [t]
  | u :: rest =>
    if u.name == t.name then { u with exponent := u.exponent + t.exponent } :: rest
    else u :: merge rest t

end UnitTerm

/-- The families of canonical units for composite results. -/
inductive UnitField where
  | mechanical
  | electrical
  | other
deriving Repr, DecidableEq

/-- A unit: its dimension, the coherent units in one of it, the terms it was built
from, their text, and a format for values that carry it. -/
structure MeasureUnit (R E : Type) where
  dimension : Dimension E
  factor : R
  terms : List (UnitTerm R E)
  text : String
  format : Option String := none

namespace MeasureUnit

variable {R E : Type} [Scalar R] [Exponent E]

/-- Units are equal when they have the same dimension, factor and text. -/
instance : BEq (MeasureUnit R E) where
  beq a b := a.dimension == b.dimension && a.factor == b.factor && a.text == b.text

/-- A unit with a name of its own. -/
def named (name : String) (dimension : Dimension E) (factor : R) : MeasureUnit R E :=
  { dimension, factor, terms := [⟨.named name, 1⟩], text := name }

/-- A unit built from terms, whose text they are. -/
def ofTerms (dimension : Dimension E) (factor : R) (terms : List (UnitTerm R E)) :
    MeasureUnit R E :=
  { dimension, factor, terms, text := UnitTerm.render terms }

/-- The same unit with a format for its values. -/
def withFormat (u : MeasureUnit R E) (format : String) : MeasureUnit R E :=
  { u with format := some format }

/-- The same magnitude under a new name. -/
def renamed (u : MeasureUnit R E) (name : String) : MeasureUnit R E :=
  named name u.dimension u.factor

/-- The unit is a plain number, such as a percent. -/
def isDimensionless (u : MeasureUnit R E) : Bool :=
  u.dimension.isNone

/-- The unit measures temperature. -/
def isTemperature (u : MeasureUnit R E) : Bool :=
  u.dimension == { (Dimension.none : Dimension E) with temperature := 1 }

/-- The unit measures angles. -/
def isAngle (u : MeasureUnit R E) : Bool :=
  u.dimension == { (Dimension.none : Dimension E) with angle := 1 }

/-- Values in the two units can be converted into each other. -/
def sharesDimension (a b : MeasureUnit R E) : Bool :=
  a.dimension == b.dimension

/-- The unit was built from others by products, quotients or powers. -/
def isComposite (u : MeasureUnit R E) : Bool :=
  u.text.toList.any fun c => c == '·' || c == '/' || c == '^'

/-- The multiplier that takes a number in the first unit into the second. -/
def factorTo (a b : MeasureUnit R E) : R :=
  a.factor / b.factor

/-- Scales a unit by a plain number, which becomes a term of its own. -/
def scaled (u : MeasureUnit R E) (k : R) : MeasureUnit R E :=
  if k == 1 then u
  else ofTerms u.dimension (u.factor * k) (⟨.number k, 1⟩ :: u.terms)

variable [Narrowing R E]

/-- A power of a unit; terms whose exponent becomes zero are dropped. -/
def pow (u : MeasureUnit R E) (n : E) : MeasureUnit R E :=
  let terms := u.terms.map fun t => { t with exponent := t.exponent * n }
  ofTerms (u.dimension.pow n) (Scalar.pow u.factor (Narrowing.widen n))
    (terms.filter fun t => t.exponent != 0)

/-- The reciprocal unit. -/
def inverse (u : MeasureUnit R E) : MeasureUnit R E :=
  u.pow (-1)

/-- Merges the terms of two units without any conversion; `sign` is one to
multiply and minus one to divide. -/
def joinWith (sign : E) (a b : MeasureUnit R E) : MeasureUnit R E :=
  let merged := b.terms.foldl
    (fun terms t => UnitTerm.merge terms { t with exponent := sign * t.exponent }) a.terms
  let dimension := if 0 < sign then a.dimension * b.dimension else a.dimension / b.dimension
  ofTerms dimension (a.factor * Scalar.pow b.factor (Narrowing.widen sign))
    (merged.filter fun t => t.exponent != 0)

/-- The product of two units with all their terms. -/
def join (a b : MeasureUnit R E) : MeasureUnit R E :=
  joinWith 1 a b

/-- The quotient of two units with all their terms. -/
def joinOver (a b : MeasureUnit R E) : MeasureUnit R E :=
  joinWith (-1) a b

/-- A unit that has a dimension, or else the number it is. -/
def reduced (u : MeasureUnit R E) : R × Option (MeasureUnit R E) :=
  if u.isDimensionless then (u.factor, none) else (1, some u)

/-- The unit of a product, and the number that multiplies it. Different units of
one dimension are brought to the first. -/
def multiply? (a b : MeasureUnit R E) : R × Option (MeasureUnit R E) :=
  if b.isDimensionless then (b.factor, some a)
  else if a.isDimensionless then (a.factor, some b)
  else if a.sharesDimension b && a.text != b.text then (b.factor / a.factor, some (a.pow (1 + 1)))
  else (join a b).reduced

/-- The unit of a quotient, and the number that multiplies it. -/
def divide? (a b : MeasureUnit R E) : R × Option (MeasureUnit R E) :=
  if b.isDimensionless then (1 / b.factor, some a)
  else if a.isDimensionless then (a.factor, some b.inverse)
  else if a.sharesDimension b then (a.factor / b.factor, none)
  else (joinOver a b).reduced

/-- The family of canonical units that a unit belongs to by its dimension. -/
def field (u : MeasureUnit R E) : UnitField :=
  let d := u.dimension
  let others := d.temperature == 0 && d.amount == 0 && d.luminosity == 0 && d.angle == 0 &&
    d.custom == 0
  let two : E := 1 + 1
  if !others then .other
  else if d.current != 0 || (d.mass == 1 && d.time == -(two + 1) && d.length == two) then
    .electrical
  else if d.mass == 1 && d.time == -two then .mechanical
  else .other

end MeasureUnit

/-- The text of a unit that may be missing. -/
def unitText {R E : Type} (u : Option (MeasureUnit R E)) : String :=
  match u with
  | some u => u.text
  | none => "unitless"

end UnitCalc
