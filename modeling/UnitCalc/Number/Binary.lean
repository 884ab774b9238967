/-
# Binary floating point formats

A finite number of a binary format is a signed significand times a power of
two. Decoding the bits gives that form exactly, so the digits of a number can be
found by integer arithmetic.
-/

namespace UnitCalc.Number

/-- A binary interchange format: the bits of the significand, counting the one
that is not stored, the bits of the exponent, and the least exponent of a unit in
the last place. -/
structure BinaryFormat where
  precision : Nat
  exponentBits : Nat
  minExponent : Int

/-- Double precision. -/
def double : BinaryFormat := ⟨53, 11, -1074⟩

/-- Single precision. -/
def single : BinaryFormat := ⟨24, 8, -149⟩

/-- A finite number, `significand * 2 ^ exponent` with a sign. -/
structure Binary where
  negative : Bool
  significand : Nat
  exponent : Int
deriving Repr

/-- What the bits of a format stand for. -/
inductive Decoded where
  | nan
  | infinite (negative : Bool)
  | finite (value : Binary)

namespace BinaryFormat

/-- Reads the sign, the exponent and the fraction out of the bits. -/
def decode (format : BinaryFormat) (bits : Nat) : Decoded :=
  let unit := Nat.pow 2 (format.precision - 1)
  let limit := Nat.pow 2 format.exponentBits
  let fraction := bits % unit
  let exponent := bits / unit % limit
  let negative := bits / unit / limit % 2 == 1
  if exponent + 1 == limit then
    if fraction == 0 then .infinite negative else .nan
  else if exponent == 0 then .finite ⟨negative, fraction, format.minExponent⟩
  else .finite ⟨negative, unit + fraction, format.minExponent + exponent - 1⟩

end BinaryFormat

namespace Binary

/-- The magnitude as a quotient of natural numbers. -/
def magnitude (b : Binary) : Nat × Nat :=
  if b.exponent < 0 then (b.significand, Nat.pow 2 (-b.exponent).toNat)
  else (b.significand * Nat.pow 2 b.exponent.toNat, 1)

/-- The integer the number is, when it is one. -/
def toInt? (b : Binary) : Option Int :=
  let (num, den) := b.magnitude
  if num % den == 0 then
    let n : Int := num / den
    some (if b.negative then -n else n)
  else none

end Binary

end UnitCalc.Number
