/-
# Errors of unit expressions

Why a text does not denote a unit, or why two units cannot be combined.
-/

namespace UnitCalc

/-- The causes for which a unit expression or a conversion is refused. -/
inductive MeasureError where
  | invalidSymbol (symbol : Char)
  | unknownUnit (name : String)
  | invalidNumber (text : String)
  | illegalPair (previous current : String)
  | missingLeftBracket
  | missingRightBracket
  | incompleteExpression
  | missingOperand
  | powerNotUnitless
  | notUnits
  | inconsistent (left : String) (op : Char) (right : String)
deriving Repr, DecidableEq

/-- The wording of an error. -/
def MeasureError.message : MeasureError → String
  | .invalidSymbol c => "Invalid symbol '" ++ String.singleton c ++ "'."
  | .unknownUnit name => "Invalid units: \"" ++ name ++ "\"."
  | .invalidNumber text => "Cannot evaluate \"" ++ text ++ "\" as number."
  | .illegalPair previous current => "Invalid syntax: \"" ++ previous ++ " " ++ current ++ "\"."
  | .missingLeftBracket => "Missing left bracket '('."
  | .missingRightBracket => "Missing right bracket ')'."
  | .incompleteExpression => "Incomplete expression."
  | .missingOperand => "Missing operand."
  | .powerNotUnitless => "Power must be unitless."
  | .notUnits => "This expression does not evaluate to units."
  | .inconsistent left op right =>
    "Inconsistent units \"" ++ left ++ " " ++ String.singleton op ++ " " ++ right ++ "\"."

end UnitCalc
