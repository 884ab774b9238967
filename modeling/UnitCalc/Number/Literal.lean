/-
# Number literals

The texts that denote a number: an optional sign, digits with at most one point
and at least one digit, and an optional exponent of ten; or the words `inf`,
`infinity` and `nan` in any case. Reading gives the exact decimal value.
-/

namespace UnitCalc.Number

/-- What a number literal denotes. -/
inductive Literal where
  | nan
  | infinite (negative : Bool)
  | decimal (negative : Bool) (coefficient : Nat) (exponent : Int)
deriving Repr, DecidableEq

namespace Literal

/-- The natural number that a list of decimal digits denotes. -/
def ofDigits (ds : List Char) : Nat :=
  ds.foldl (fun n c => 10 * n + (c.toNat - '0'.toNat)) 0

/-- Splits a sign off. -/
def splitSign : List Char → Bool × List Char
  | '-' :: cs => (true, cs)
  | '+' :: cs => (false, cs)
  | cs => (false, cs)

/-- The exponent part: nothing, or a marked and signed integer. -/
def readExponent : List Char → Option Int
  | [] => some 0
  | mark :: cs =>
    let (negative, ds) := splitSign cs
    if (mark == 'e' || mark == 'E') && !ds.isEmpty && ds.all Char.isDigit then
      some (if negative then -(ofDigits ds : Int) else ofDigits ds)
    else none

/-- An unsigned decimal with an optional exponent. -/
def readDecimal (negative : Bool) (cs : List Char) : Option Literal :=
  let (whole, cs) := cs.span Char.isDigit
  let (fraction, cs) := match cs with
    | '.' :: cs => cs.span Char.isDigit
    | cs => ([], cs)
  if whole.isEmpty && fraction.isEmpty then none
  else (readExponent cs).map fun e =>
    .decimal negative (ofDigits (whole ++ fraction)) (e - fraction.length)

/-- Reads a number literal; the whole text has to denote it. -/
def read (s : String) : Option Literal :=
  let (negative, cs) := splitSign s.toList
  let word := String.ofList (cs.map Char.toLower)
  if word == "inf" || word == "infinity" then some (.infinite negative)
  else if word == "nan" then some .nan
  else readDecimal negative cs

end Literal

end UnitCalc.Number
