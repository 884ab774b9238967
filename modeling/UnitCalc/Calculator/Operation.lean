/-
# Operators and functions

The operators of expressions with their symbols and binding orders, and the
built-in functions by name.
-/

namespace UnitCalc

/-- The operators, in the order of their tables. -/
inductive Operator where
  | power
  | divide
  | intDivide
  | modulo
  | multiply
  | subtract
  | add
  | less
  | greater
  | lessOrEqual
  | greaterOrEqual
  | equal
  | notEqual
  | and
  | or
  | exclusiveOr
  | assign
deriving Repr, DecidableEq

namespace Operator

/-- All operators in order. -/
def all : List Operator :=
  [power, divide, intDivide, modulo, multiply, subtract, add, less, greater, lessOrEqual,
    greaterOrEqual, equal, notEqual, and, or, exclusiveOr, assign]

/-- The symbol an operator is written with. -/
def symbol : Operator → Char
  | power => '^'
  | divide => '/'
  | intDivide => '\\'
  | modulo => '⦼'
  | multiply => '*'
  | subtract => '-'
  | add => '+'
  | less => '<'
  | greater => '>'
  | lessOrEqual => '≤'
  | greaterOrEqual => '≥'
  | equal => '≡'
  | notEqual => '≠'
  | and => '∧'
  | or => '∨'
  | exclusiveOr => '⊕'
  | assign => '='

/-- The second symbol of division. -/
def obelus : Char := '÷'

/-- The operator of a symbol. -/
def ofSymbol? (c : Char) : Option Operator :=
  if c == obelus then some divide else all.find? fun o => o.symbol == c

/-- The place of an operator in the table. -/
def index (o : Operator) : Nat :=
  all.idxOf o

/-- How loosely an operator binds: lower binds tighter. -/
def order : Operator → Int
  | power => 0
  | divide | intDivide | modulo | multiply => 4
  | subtract => 5
  | add => 6
  | less | greater | lessOrEqual | greaterOrEqual | equal | notEqual => 7
  | and => 8
  | or | exclusiveOr => 9
  | assign => 10

end Operator

/-- A symbol of an operator. -/
def isOperatorSymbol (c : Char) : Bool :=
  (Operator.ofSymbol? c).isSome

/-- The order of the multiplication that joins a number to the unit behind it. -/
def unitSuffixOrder : Int := 3

/-- The order of products and quotients between two units. -/
def unitTermOrder : Int := 1

/-- The order of the sign in front of an operand. -/
def negationOrder : Int := 1

/-- The hyphen that stands for the sign in front of an operand. -/
def negationSymbol : String := "‐"

/-- The built-in functions of one argument, in the order of their table. -/
inductive Function where
  | sin | cos | tan | csc | sec | cot
  | asin | acos | atan | acsc | asec | acot
  | sinh | cosh | tanh | csch | sech | coth
  | asinh | acosh | atanh | acsch | asech | acoth
  | log | ln | log2 | exp
  | abs | sign | sqr | sqrt | cbrt
  | round | floor | ceiling | trunc
  | re | im | phase | random | factorial | negate
deriving Repr, DecidableEq

namespace Function

/-- All functions of one argument with their names, in order. -/
def table : List (Function × String) :=
  [(sin, "sin"), (cos, "cos"), (tan, "tan"), (csc, "csc"), (sec, "sec"), (cot, "cot"),
    (asin, "asin"), (acos, "acos"), (atan, "atan"), (acsc, "acsc"), (asec, "asec"),
    (acot, "acot"), (sinh, "sinh"), (cosh, "cosh"), (tanh, "tanh"), (csch, "csch"),
    (sech, "sech"), (coth, "coth"), (asinh, "asinh"), (acosh, "acosh"), (atanh, "atanh"),
    (acsch, "acsch"), (asech, "asech"), (acoth, "acoth"), (log, "log"), (ln, "ln"),
    (log2, "log_2"), (exp, "exp"), (abs, "abs"), (sign, "sign"), (sqr, "sqr"), (sqrt, "sqrt"),
    (cbrt, "cbrt"), (round, "round"), (floor, "floor"), (ceiling, "ceiling"), (trunc, "trunc"),
    (re, "re"), (im, "im"), (phase, "phase"), (random, "random"), (factorial, "fact"),
    (negate, negationSymbol)]

/-- The name of a function. -/
def name (f : Function) : String :=
  (table.lookup f).getD "?"

/-- The function of a name. -/
def ofName? (name : String) : Option Function :=
  (table.find? fun (_, n) => n == name).map Prod.fst

/-- The place of a function in the table. -/
def index (f : Function) : Nat :=
  (table.map Prod.fst).idxOf f

end Function

/-- The built-in functions of two arguments. -/
inductive BinaryFunction where
  | atan2
  | root
deriving Repr, DecidableEq

namespace BinaryFunction

/-- The functions of two arguments with their names. -/
def table : List (BinaryFunction × String) :=
  [(atan2, "atan2"), (root, "root")]

/-- The name of a function. -/
def name (f : BinaryFunction) : String :=
  (table.lookup f).getD "?"

/-- The function of a name. -/
def ofName? (name : String) : Option BinaryFunction :=
  (table.find? fun (_, n) => n == name).map Prod.fst

/-- The place of a function in the table. -/
def index (f : BinaryFunction) : Nat :=
  (table.map Prod.fst).idxOf f

end BinaryFunction

/-- The built-in functions of any number of arguments. -/
inductive MultiFunction where
  | min | max | sum | sumsq | srss | average | product | mean
  | switch | and | or | xor | gcd | lcm
deriving Repr, DecidableEq

namespace MultiFunction

/-- The functions of many arguments with their names. -/
def table : List (MultiFunction × String) :=
  [(min, "min"), (max, "max"), (sum, "sum"), (sumsq, "sumsq"), (srss, "srss"),
    (average, "average"), (product, "product"), (mean, "mean"), (switch, "switch"), (and, "and"),
    (or, "or"), (xor, "xor"), (gcd, "gcd"), (lcm, "lcm")]

/-- The name of a function. -/
def name (f : MultiFunction) : String :=
  (table.lookup f).getD "?"

/-- The function of a name. -/
def ofName? (name : String) : Option MultiFunction :=
  (table.find? fun (_, n) => n == name).map Prod.fst

/-- The place of a function in the table. -/
def index (f : MultiFunction) : Nat :=
  (table.map Prod.fst).idxOf f

end MultiFunction

/-- The name of the conditional. -/
def conditionalName : String := "if"

end UnitCalc
