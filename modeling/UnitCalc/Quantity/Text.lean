/-
# Texts of results

A result shows its number with a given number of decimals, trailing zeros dropped,
and its unit. Very large and very small numbers have an exponent of ten. Complex
numbers are shown as a sum.
-/

import UnitCalc.Number.Double
import UnitCalc.Quantity.Basic

namespace UnitCalc

/-- The quantities of the running calculator. -/
abbrev Value := Quantity Float Float32

/-- The units of the running calculator. -/
abbrev ValueUnit := MeasureUnit Float Float32

namespace Number

/-- Drops the zeros at the end of the decimals, and the point when none is left. -/
def dropTrailingZeros (cs : List Char) : List Char :=
  if cs.contains '.' then
    let kept := cs.reverse.dropWhile (· == '0')
    (match kept with
      | '.' :: rest => rest
      | _ => kept).reverse
  else cs

/-- From this magnitude on numbers are shown with an exponent. -/
def positionalLimit : Float := 1e15

/-- A mantissa shows at most this many decimals. -/
def maxMantissaDecimals : Nat := 6

/-- A number as results show it. -/
def resultText (x : Float) (decimals : Nat) : String :=
  match decodeDouble x with
  | .nan => "Undefined"
  | .infinite negative => if negative then "-∞" else "+∞"
  | .finite b =>
    let a := x.abs
    if a != 0 && (positionalLimit ≤ a || a < Scalar.powNat 0.1 decimals) then
      String.ofList (scientific (min decimals maxMantissaDecimals) b)
    else
      let cs := dropTrailingZeros (fixed decimals b)
      String.ofList (if cs == ['-', '0'] then ['0'] else cs)

end Number

namespace Quantity

/-- The units that follow their number without a blank. -/
def closeSymbols : List String :=
  ["%", "‰", "‱", "°", "′", "″"]

/-- The number of a quantity as results show it. -/
def numberText (q : Value) (decimals : Nat) : String :=
  if q.isReal then Number.resultText q.re decimals
  else if q.re == 0 then Number.resultText q.im decimals ++ "i"
  else
    let sign := if q.im < 0 then " - " else " + "
    Number.resultText q.re decimals ++ sign ++ Number.resultText q.im.abs decimals ++ "i"

/-- A quantity as results show it. -/
def text (q : Value) (decimals : Nat) : String :=
  let number := q.numberText decimals
  match q.unit with
  | none => number
  | some u =>
    if !q.isReal && q.re != 0 then "(" ++ number ++ ") " ++ u.text
    else if closeSymbols.contains u.text then number ++ u.text
    else number ++ " " ++ u.text

/-- The text of a quantity inside a message. -/
def messageText (q : Value) : String :=
  q.text 6

end Quantity

end UnitCalc
