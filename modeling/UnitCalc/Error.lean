/-
# Errors of the calculator

Why a statement is refused or an evaluation fails. An error holds the names,
texts and numbers that its wording shows; `CalcError.message` is the wording.
-/

import UnitCalc.Measure.Error

namespace UnitCalc

/-- The causes for which a statement is refused or an evaluation fails. -/
inductive CalcError where
  /-- A unit expression or a conversion was refused. -/
  | units (e : MeasureError)
  | invalidSymbol (symbol : Char)
  | invalidFirstCharacter (symbol : Char)
  | invalidNumber (text : String)
  | unknownUnit (name : String)
  | macroName (name : String)
  | unknownMethod (name : String)
  | blockNotOpened
  | blockNotClosed
  | improperAssignment
  | illegalPair (previous current : String)
  | incompleteExpression
  | missingLeftBracket
  | missingRightBracket
  | unexpectedDelimiter
  | argumentCount
  | missingOperand
  | unknownFunction (name : String)
  | assignmentWithoutTarget
  | assignmentNotFirst
  | directRecursion (name : String)
  | missingParameter
  | missingParameterDelimiter
  | invalidParameter (text : String)
  | invalidDefinition
  | definitionInBlock
  | circularReference (name : String)
  | emptyExpression
  | valuesLeft
  | stackEmpty
  | stackOverflow
  | undefinedInput
  | undefinedName (name : String)
  | functionNotDefined (name : String)
  | inconsistentTarget (unit target : String)
  | unitsNotAccepted (function unit : String)
  | powerNotUnitless
  | complexPowerOfUnits
  | rootIndexNotInteger
  | rootIndexNotUnitless
  | factorialNotUnitless
  | factorialNotNatural
  | factorialTooLarge
  | notIntegers
  | argumentOutOfRange (function : String)
  | notReal (value : String)
  | notActive
  | interrupted
  | missingBlockDelimiter (delimiter : Char) (script : String)
  | invalidBlockVariable (text : String)
  | multipleEquations (text : String)
  | notConstant (text : String)
  | inconsistentEquation (left right : String)
  | inconsistentBounds (objective lower upper : String)
  | iterationLimits (lower upper : String)
  | noSolution (block : String)
  /-- The objective of a block has no finite value at a point. -/
  | notDefinedAt (point : String)
  /-- The objective of a block has no real value at a point. -/
  | cannotEvaluateAt (point : String)
  | inconsistentTerms (first second : String)
  /-- An error of a numerical method, worded with its objective and variable. -/
  | method (message : String)
deriving Repr, DecidableEq

namespace CalcError

/-- A text between double quotes. -/
private def quoted (s : String) : String :=
  "\"" ++ s ++ "\""

/-- A character between single quotes. -/
private def ticked (c : Char) : String :=
  "'" ++ String.singleton c ++ "'"

/-- The wording of an error. The texts `%F` and `%V` stand for the objective and the
variable of the block that a numerical method works on. -/
def message : CalcError → String
  | .units e => e.message
  | .invalidSymbol c => "Invalid symbol " ++ ticked c ++ "."
  | .invalidFirstCharacter c =>
    "Invalid character " ++ ticked c ++
      ". Variables, functions and units must begin with a letter."
  | .invalidNumber text => "Cannot evaluate " ++ quoted text ++ " as number."
  | .unknownUnit name => "Invalid units: " ++ quoted name ++ "."
  | .macroName name => "Invalid macro identifier " ++ quoted (name ++ "$") ++ "."
  | .unknownMethod name => "Invalid solver " ++ quoted name ++ "."
  | .blockNotOpened => "Missing left bracket '\x7b' in solver command."
  | .blockNotClosed => "Missing right bracket '\x7d' in solver command."
  | .improperAssignment => "Improper use of the assignment operator '='."
  | .illegalPair previous current =>
    "Invalid syntax: " ++ quoted (previous ++ " " ++ current) ++ "."
  | .incompleteExpression => "Incomplete expression."
  | .missingLeftBracket => "Missing left bracket '('."
  | .missingRightBracket => "Missing right bracket ')'."
  | .unexpectedDelimiter => "Unexpected delimiter ';'."
  | .argumentCount => "Invalid number of arguments."
  | .missingOperand => "Missing operand."
  | .unknownFunction name => "Invalid function: " ++ quoted name ++ "."
  | .assignmentWithoutTarget => "The assignment '=' must be preceded by a variable or unit."
  | .assignmentNotFirst => "The assignment '=' must be the first operator in the expression."
  | .directRecursion name =>
    "Recursion is not allowed in function definition: " ++ quoted name ++ "."
  | .missingParameter => "Missing parameter in function definition."
  | .missingParameterDelimiter => "Missing delimiter in function definition."
  | .invalidParameter text => "Invalid token in function definition: " ++ quoted text ++ "."
  | .invalidDefinition =>
    "Invalid function definition. It have to match the pattern: \"f(x; y; z...) =\"."
  | .definitionInBlock => "Function definitions are not allowed inside solver blocks."
  | .circularReference name => "Circular reference detected for function " ++ quoted name ++ "."
  | .emptyExpression => "Expression is empty."
  | .valuesLeft => "Stack memory leak. Invalid expression."
  | .stackEmpty => "Stack empty. Invalid expression."
  | .stackOverflow => "Stack overflow. The expression is nested too deeply."
  | .undefinedInput => "Undefined input field."
  | .undefinedName name => "Undefined variable or units: " ++ quoted name ++ "."
  | .functionNotDefined name => "Function not defined: " ++ quoted name ++ "."
  | .inconsistentTarget unit target =>
    "The calculated units " ++ quoted unit ++ " are inconsistent with the target units " ++
      quoted target ++ "."
  | .unitsNotAccepted function unit =>
    "Invalid units for function: " ++ quoted (function ++ "(" ++ unit ++ ")") ++ "."
  | .powerNotUnitless => "Power must be unitless."
  | .complexPowerOfUnits => "Units cannot be raised to a complex power."
  | .rootIndexNotInteger => "Root index must be an integer greater than 1."
  | .rootIndexNotUnitless => "Root index must be unitless."
  | .factorialNotUnitless => "Factorial argument must be unitless."
  | .factorialNotNatural => "Factorial argument must be a positive integer."
  | .factorialTooLarge => "Factorial argument is out of range."
  | .notIntegers => "Both values must be integers."
  | .argumentOutOfRange function => "The argument of " ++ quoted function ++ " is out of range."
  | .notReal value => "The result is not a real number: " ++ quoted value ++ "."
  | .notActive => "Calculations are not active."
  | .interrupted => "Interrupted by user."
  | .missingBlockDelimiter delimiter script =>
    "Missing delimiter " ++ quoted (String.singleton delimiter) ++ " in solver command \x7b" ++
      script ++ "\x7d."
  | .invalidBlockVariable text => "Invalid variable " ++ quoted text ++ " in solver command."
  | .multipleEquations text => "More than one operators '=' in '" ++ text ++ "'."
  | .notConstant text => "The expression on the right side must be constant: " ++ quoted text ++ "."
  | .inconsistentEquation left right =>
    "Inconsistent units for " ++ quoted (left ++ " = " ++ right) ++ "."
  | .inconsistentBounds objective lower upper =>
    "Inconsistent units for " ++ quoted (objective ++ " = " ++ lower ++ " : " ++ upper) ++ "."
  | .iterationLimits lower upper =>
    "Limits out of range for " ++ quoted (lower ++ " : " ++ upper) ++ "."
  | .noSolution block => "No solution for: " ++ block ++ "."
  | .notDefinedAt point => "The function f(%V) = %F is not defined for %V = " ++ point ++ "."
  | .cannotEvaluateAt point => "Cannot evaluate the function f(%V) = %F for %V = " ++ point ++ "."
  | .inconsistentTerms first second =>
    "Inconsistent units " ++ quoted first ++ " and " ++ quoted second ++ "."
  | .method message => message

/-- The text contains a part. -/
private def mentions (s part : String) : Bool :=
  (s.splitOn part).length != 1

/-- Words an error of a numerical method with the objective and the variable of its
block. Errors that mention neither stay as they are. -/
def inBlock (e : CalcError) (objective unknown : String) : CalcError :=
  let text := e.message
  if mentions text "%F" || mentions text "%V" then
    .method ((text.replace "%F" objective).replace "%V" unknown)
  else e

end CalcError

end UnitCalc
