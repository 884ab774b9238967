/-
# Tokens

The tokens of statements, as they are read and as they stand in a postfix program.
An operator carries its symbol and the order it binds with, a call the number of
its arguments, and a variable the cell that holds its value.
-/

import UnitCalc.Calculator.Operation
import UnitCalc.Quantity.Text

namespace UnitCalc

/-- The place of a variable among the cells of a session. -/
abbrev CellId := Nat

/-- A token of a statement. Constants, units and inputs may lack a value: a unit that is
about to be defined, and an input that nothing was entered for. A call lacks the index of
its function while that is not defined. -/
inductive Token where
  | blank (text : String)
  | constant (value : Option Value) (text : String)
  | variable (cell : Option CellId) (name : String)
  | unit (value : Option Value) (name : String)
  | input (value : Option Value)
  | operator (symbol : Char) (order : Int)
  | negation (order : Int)
  | factorial
  | function (name : String)
  | binaryFunction (name : String)
  | multiFunction (name : String) (count : Nat)
  | conditional
  | call (index : Option Nat) (name : String) (count : Nat)
  | block (index : Nat) (name : String)
  | openBracket
  | closeBracket
  | separator

instance : Inhabited Token := ⟨.blank ""⟩

namespace Token

/-- The order of an operator that was not ordered yet. -/
def unordered : Int := -1

/-- An operator that was not ordered yet. -/
def ofSymbol (symbol : Char) : Token :=
  .operator symbol unordered

/-- The name, the symbol or the digits of a token. -/
def content : Token → String
  | blank text => text
  | constant _ text => text
  | .variable _ name => name
  | unit _ name => name
  | input _ => "?"
  | operator symbol _ => String.singleton symbol
  | negation _ => negationSymbol
  | factorial => "!"
  | function name => name
  | binaryFunction name => name
  | multiFunction name _ => name
  | conditional => conditionalName
  | call _ name _ => name
  | block _ name => name
  | openBracket => "("
  | closeBracket => ")"
  | separator => ";"

/-- How a token is shown: a sign is a minus, and a constant without digits of its own
shows its value. -/
def text : Token → String
  | negation _ => "-"
  | constant (some value) "" => value.messageText
  | t => t.content

/-- The operator of a token; an unknown symbol stands for the last one of the table. -/
def operatorOf (symbol : Char) : Operator :=
  (Operator.ofSymbol? symbol).getD .assign

/-- The function of a name; an unknown name stands for the last one of the table. -/
def functionOf (name : String) : Function :=
  (Function.ofName? name).getD .negate

/-- The function of two arguments of a name; an unknown name stands for the last one of
the table. -/
def binaryFunctionOf (name : String) : BinaryFunction :=
  (BinaryFunction.ofName? name).getD .root

/-- The function of many arguments of a name; an unknown name stands for the last one of
the table. -/
def multiFunctionOf (name : String) : MultiFunction :=
  (MultiFunction.ofName? name).getD .lcm

/-- The token is this operator. -/
def isOperator (symbol : Char) : Token → Bool
  | operator s _ => s == symbol
  | _ => false

/-- The token is the operator of assignment. -/
def isAssignment (t : Token) : Bool :=
  t.isOperator '='

/-- The token is the unit that a statement defines. -/
def isNewUnit : Token → Bool
  | unit none _ => true
  | _ => false

/-- Classes of tokens that matter for which token may follow which. -/
inductive Class where
  | start
  | value
  | operator
  | function
  | openBracket
  | closeBracket
  | separator
deriving Repr, DecidableEq

/-- The class of a token. -/
def kind : Token → Class
  | blank _ => .start
  | constant _ _ | .variable _ _ | unit _ _ | input _ | block _ _ => .value
  | operator _ _ | negation _ => .operator
  | factorial | function _ | binaryFunction _ | multiFunction _ _ | conditional | call _ _ _ =>
    .function
  | openBracket => .openBracket
  | closeBracket => .closeBracket
  | separator => .separator

/-- The token is an operand by itself. -/
def isOperand (t : Token) : Bool :=
  t.kind = .value

/-- The token is an operator or a sign. -/
def isOperation (t : Token) : Bool :=
  t.kind = .operator

/-- The index of the block that a token refers to. -/
def blockIndex? : Token → Option Nat
  | block index _ => some index
  | _ => none

/-- The index of the custom function that a token calls. -/
def callIndex? : Token → Option Nat
  | call index _ _ => index
  | _ => none

/-- The cell that a token reads. -/
def cell? : Token → Option CellId
  | .variable cell _ => cell
  | _ => none

/-- Makes a variable with the name of a parameter read the cell of that parameter. -/
def bound (parameters : List (String × CellId)) : Token → Token
  | .variable cell name => .variable ((parameters.lookup name).or cell) name
  | t => t

end Token

end UnitCalc
