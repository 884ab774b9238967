/-
# Dimensions

A dimension gives an exponent to each base quantity of the International System
and to one more base that session units, such as currencies, are counted in.
Dimensions multiply by adding exponents. The text of a dimension lists the base
units with their powers, larger exponents first.
-/

import UnitCalc.Number.Scalar

namespace UnitCalc

/-- Exponents over the base quantities. -/
@[ext]
structure Dimension (E : Type) where
  time : E
  length : E
  mass : E
  current : E
  temperature : E
  amount : E
  luminosity : E
  angle : E
  /-- Base of the units defined during a session. -/
  custom : E
deriving Repr

namespace Dimension

variable {E F : Type}

/-- Applies a function to every exponent. -/
def map (f : E → F) (d : Dimension E) : Dimension F :=
  ⟨f d.time, f d.length, f d.mass, f d.current, f d.temperature, f d.amount, f d.luminosity,
    f d.angle, f d.custom⟩

/-- Combines two dimensions base by base. -/
def zipWith (f : E → E → F) (a b : Dimension E) : Dimension F :=
  ⟨f a.time b.time, f a.length b.length, f a.mass b.mass, f a.current b.current,
    f a.temperature b.temperature, f a.amount b.amount, f a.luminosity b.luminosity,
    f a.angle b.angle, f a.custom b.custom⟩

/-- The exponents in the order of the base units. -/
def toList (d : Dimension E) : List E :=
  [d.time, d.length, d.mass, d.current, d.temperature, d.amount, d.luminosity, d.angle, d.custom]

/-- The exponents of a list in the order of the base units; missing ones are zero. -/
def ofList [Zero E] (es : List E) : Dimension E :=
  let e (i : Nat) := es.getD i 0
  ⟨e 0, e 1, e 2, e 3, e 4, e 5, e 6, e 7, e 8⟩

/-- The symbols of the base units. -/
def symbols : List String :=
  ["s", "m", "kg", "A", "K", "mol", "cd", "rad", "¤"]

/-- The dimension of a plain number. -/
def none [Zero E] : Dimension E :=
  ⟨0, 0, 0, 0, 0, 0, 0, 0, 0⟩

/-- The dimension of a session unit defined from a plain number. -/
def currency [Zero E] [One E] : Dimension E :=
  { (none : Dimension E) with custom := 1 }

instance [BEq E] : BEq (Dimension E) where
  beq a b := a.time == b.time && a.length == b.length && a.mass == b.mass &&
    a.current == b.current && a.temperature == b.temperature && a.amount == b.amount &&
    a.luminosity == b.luminosity && a.angle == b.angle && a.custom == b.custom

instance [Add E] : Mul (Dimension E) := ⟨zipWith (· + ·)⟩

instance [Sub E] : Div (Dimension E) := ⟨zipWith (· - ·)⟩

/-- Every exponent multiplied by `n`. -/
def pow [Mul E] (d : Dimension E) (n : E) : Dimension E :=
  d.map (· * n)

variable [Exponent E]

/-- All exponents are zero. -/
def isNone (d : Dimension E) : Bool :=
  d == none

/-- Symbol, name and dimension of the coherent units with a name of their own. -/
def namedUnits : List (String × String × Dimension Int) :=
  [("s", "second", ⟨1, 0, 0, 0, 0, 0, 0, 0, 0⟩),
   ("m", "meter", ⟨0, 1, 0, 0, 0, 0, 0, 0, 0⟩),
   ("kg", "kilogram", ⟨0, 0, 1, 0, 0, 0, 0, 0, 0⟩),
   ("A", "ampere", ⟨0, 0, 0, 1, 0, 0, 0, 0, 0⟩),
   ("K", "kelvin", ⟨0, 0, 0, 0, 1, 0, 0, 0, 0⟩),
   ("mol", "mole", ⟨0, 0, 0, 0, 0, 1, 0, 0, 0⟩),
   ("cd", "candela", ⟨0, 0, 0, 0, 0, 0, 1, 0, 0⟩),
   ("rad", "radian", ⟨0, 0, 0, 0, 0, 0, 0, 1, 0⟩),
   ("Hz", "hertz", ⟨-1, 0, 0, 0, 0, 0, 0, 0, 0⟩),
   ("N", "newton", ⟨-2, 1, 1, 0, 0, 0, 0, 0, 0⟩),
   ("Pa", "pascal", ⟨-2, -1, 1, 0, 0, 0, 0, 0, 0⟩),
   ("J", "joule", ⟨-2, 2, 1, 0, 0, 0, 0, 0, 0⟩),
   ("W", "watt", ⟨-3, 2, 1, 0, 0, 0, 0, 0, 0⟩),
   ("C", "coulomb", ⟨1, 0, 0, 1, 0, 0, 0, 0, 0⟩),
   ("V", "volt", ⟨-3, 2, 1, -1, 0, 0, 0, 0, 0⟩),
   ("F", "farad", ⟨4, -2, -1, 2, 0, 0, 0, 0, 0⟩),
   ("Ω", "ohm", ⟨-3, 2, 1, -2, 0, 0, 0, 0, 0⟩),
   ("S", "siemens", ⟨3, -2, -1, 2, 0, 0, 0, 0, 0⟩),
   ("Wb", "weber", ⟨-2, 2, 1, -1, 0, 0, 0, 0, 0⟩),
   ("T", "tesla", ⟨-2, 0, 1, -1, 0, 0, 0, 0, 0⟩),
   ("H", "henry", ⟨-2, 2, 1, -2, 0, 0, 0, 0, 0⟩)]

/-- Symbol and name of the coherent unit with exactly this dimension. -/
def siName? (d : Dimension E) : Option (String × String) :=
  let exponents := d.toList.map Exponent.toInt?
  (namedUnits.find? fun (_, _, named) => named.toList.map some == exponents).map
    fun (symbol, name, _) => (symbol, name)

/-- The superscript of a digit. -/
def superscript (n : Nat) : String :=
  (["⁰", "¹", "²", "³", "⁴", "⁵", "⁶", "⁷", "⁸", "⁹"].getD n "")

/-- A base unit with its power: nothing for the power zero, a superscript for
integers of one digit, and otherwise the exponent behind a caret. -/
def powerText? (symbol : String) (e : E) : Option String :=
  if e == 0 then Option.none
  else match Exponent.toInt? e with
    | some 1 => some symbol
    | some n =>
      if n.natAbs < 10 then
        some (symbol ++ (if n < 0 then "⁻" else "") ++ superscript n.natAbs)
      else some (symbol ++ "^" ++ Exponent.text e)
    | Option.none => some (symbol ++ "^" ++ Exponent.text e)

/-- The base units with their powers, larger exponents first. -/
def text (d : Dimension E) : String :=
  let powers := (d.toList.zip symbols).mergeSort fun a b => Exponent.showsBefore a.1 b.1
  "·".intercalate (powers.filterMap fun (e, symbol) => powerText? symbol e)

end Dimension

end UnitCalc
