/-
# Binding orders

Operators get the order of their table. Products and quotients between two units bind
tighter, so that a run such as `1/m*s` keeps `m*s` together. Names of variables that were
never assigned become units when they name one.
-/

import UnitCalc.Token.Basic

namespace UnitCalc

namespace Token

/-- An operator with the order of its table; operators that have an order keep it. -/
def ordered : Token → Token
  | negation _ => negation negationOrder
  | operator symbol order =>
    operator symbol (if order < 0 then
      ((Operator.ofSymbol? symbol).map Operator.order).getD order else order)
  | t => t

/-- A variable that was never assigned, as the unit of its name. -/
def resolved (isAssigned : CellId → Bool) (find : String → Option ValueUnit) : Token → Token
  | .variable cell name =>
    if cell.any isAssigned then .variable cell name
    else match find name with
      | some u => unit (some (.literal u)) name
      | none => .variable cell name
  | t => t

/-- The operator is a product or a quotient, which a run of units may contain. -/
def joinsUnits (t : Token) : Bool :=
  t.isOperator '*' || t.isOperator '/'

/-- An operator between two units of a run binds tightly. -/
def tightened : Token → Token
  | operator symbol order =>
    if symbol == '*' || symbol == '/' || symbol == Operator.obelus then
      operator symbol unitTermOrder
    else operator symbol order
  | t => t

/-- The token is a unit. -/
def isUnit : Token → Bool
  | unit _ _ => true
  | _ => false

/-- The token is a constant. -/
def isConstant : Token → Bool
  | constant _ _ => true
  | _ => false

/-- A run of units goes on behind a token other than a unit: over products, quotients and
powers, and over constant exponents. -/
def keepsRun (previous t : Token) : Bool :=
  t.joinsUnits || t.isOperator '^' || (t.isConstant && previous.isOperator '^')

/-- Tightens the operators inside runs of units. `previous` is the token before the list,
and `inRun` tells that it belongs to a run. -/
def tightenFrom (previous : Token) (inRun : Bool) : List Token → List Token
  | [] => [previous]
  | t :: rest =>
    if t.isUnit then
      (if inRun then previous.tightened else previous) :: tightenFrom t true rest
    else previous :: tightenFrom t (inRun && keepsRun previous t) rest

/-- Tightens the operators inside runs of units. -/
def tighten : List Token → List Token
  | [] => []
  | t :: rest => tightenFrom t t.isUnit rest

/-- Orders the operators of a list. When `find` is given, the names behind the place of the
assignment that were never assigned become units. -/
def bind (isAssigned : CellId → Bool) (find : Option (String → Option ValueUnit))
    (assignment : Nat) (tokens : List Token) : List Token :=
  let resolve (t : Token) (i : Nat) : Token :=
    match find with
    | some find => if assignment < i then t.ordered.resolved isAssigned find else t.ordered
    | none => t.ordered
  tighten (tokens.mapIdx fun i t => resolve t i)

end Token

end UnitCalc
