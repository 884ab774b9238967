/-
# Postfix programs

A postfix program lists operands before the operation that takes them. It is made from an
ordered list of tokens with a stack of waiting operators, functions and brackets. Lower
orders bind tighter, powers group to the right, and a factorial goes straight behind its
operand.

## Main definitions

* `Postfix.ofTokens` orders a list of tokens.
-/

import UnitCalc.Error
import UnitCalc.Token.Binding

namespace UnitCalc.Postfix

/-- The program is a single literal. -/
def isConstant : List Token → Bool
  | [.constant _ _] => true
  | _ => false

/-- A token on the stack goes to the output before an operator of this symbol and order is
pushed. -/
def yieldsTo (symbol : Char) (order : Int) : Token → Bool
  | .openBracket => false
  | .operator _ top | .negation top => top < order || (top == order && symbol != '^')
  | _ => true

/-- The order of an operator while it waits: a product between units is a plain product
again. -/
def waitingOrder (symbol : Char) (order : Int) : Int :=
  if order == unitTermOrder && symbol == '*' then Operator.multiply.order else order

/-- A token on the stack goes to the output before a factorial does. -/
def yieldsToFactorial : Token → Bool
  | .openBracket | .operator _ _ | .negation _ => false
  | _ => true

/-- The token is not an opening bracket. -/
def isNotOpen : Token → Bool
  | .openBracket => false
  | _ => true

/-- What is left of the stack at the end of the list, which must hold no bracket. -/
def drain (stack : List Token) : Except CalcError (List Token) :=
  if stack.all isNotOpen then .ok stack else .error .missingRightBracket

/-- The program of the rest of a list; `stack` holds what waits, the innermost first. -/
def ofTokensFrom (stack : List Token) : List Token → Except CalcError (List Token)
  | [] => drain stack
  | t :: rest => match t with
    | .blank _ => ofTokensFrom stack rest
    | .constant _ _ | .unit _ _ | .variable _ _ | .block _ _ | .input _ =>
      (ofTokensFrom stack rest).map (t :: ·)
    | .negation _ | .openBracket | .function _ | .binaryFunction _ | .multiFunction _ _
    | .conditional | .call _ _ _ => ofTokensFrom (t :: stack) rest
    | .operator symbol order =>
      let waiting := Token.operator symbol (waitingOrder symbol order)
      (ofTokensFrom (waiting :: stack.dropWhile (yieldsTo symbol order)) rest).map
        (stack.takeWhile (yieldsTo symbol order) ++ ·)
    | .factorial =>
      (ofTokensFrom (stack.dropWhile yieldsToFactorial) rest).map
        (stack.takeWhile yieldsToFactorial ++ t :: ·)
    | .closeBracket | .separator =>
      match stack.dropWhile isNotOpen with
      | [] => .error .missingLeftBracket
      | bracket :: below =>
        let stack' := match t with
          | .separator => bracket :: below
          | _ => below
        (ofTokensFrom stack' rest).map (stack.takeWhile isNotOpen ++ ·)

/-- The program of a list of tokens. -/
def ofTokens (tokens : List Token) : Except CalcError (List Token) :=
  ofTokensFrom [] tokens

end UnitCalc.Postfix
