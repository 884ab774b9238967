/-
# Characters of unit symbols

Unit symbols are made of letters, of the marks for degrees, minutes, seconds and
parts per hundred, thousand or ten thousand, and of currency signs.
-/

import UnitCalc.Text.Alphabetic

namespace UnitCalc

/-- A sign that denotes a currency. -/
def isCurrency (c : Char) : Bool :=
  ['$', '¢', '£', '¤', '¥'].contains c || ('₠' ≤ c && c ≤ '₿')

/-- The marks that count as letters in the symbol of a unit. -/
def unitMarks : List Char :=
  ['_', '°', '′', '″', '‴', '⁗', '℧', '%', '‰', '‱', 'Δ']

/-- A character that the symbol of a unit may contain. -/
def isUnitChar (c : Char) : Bool :=
  Text.isAlphabetic c || unitMarks.contains c || isCurrency c

end UnitCalc
