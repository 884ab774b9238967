/-
# Infix texts

A postfix program is shown in infix notation with as few brackets as its precedences
allow. The text is built on a stack of the texts of subexpressions, each with the
precedence of its outermost operation. A list that is no complete program is shown token
by token.

## Main definitions

* `Token.precedence` is the precedence scale of texts.
* `Postfix.infixText` is the text of a program.
-/

import UnitCalc.Token.Basic

namespace UnitCalc

/-- The side on which an operator groups. -/
inductive Grouping where
  | left
  | right
  | none
deriving Repr, DecidableEq

namespace Token

/-- How tightly a token holds its operands in a text, and on which side it groups: higher
binds tighter. -/
def precedence : Token → Nat × Grouping
  | openBracket => (1, .left)
  | negation _ => (19, .right)
  | operator symbol _ =>
    match ((Operator.ofSymbol? symbol).getD .power).order with
    | 0 => (20, .right)
    | order => (20 - order.toNat, .left)
  | factorial => (21, .left)
  | function _ | binaryFunction _ | multiFunction _ _ | conditional | call _ _ _ => (22, .left)
  | _ => (99, .none)

/-- The number of operands that a token takes. -/
def arity : Token → Nat
  | negation _ | factorial | function _ => 1
  | operator _ _ | binaryFunction _ => 2
  | conditional => 3
  | multiFunction _ count | call _ _ count => count
  | _ => 0

end Token

namespace Postfix

/-- The text of a subexpression with the precedence of its outermost operation. -/
structure Shown where
  text : String
  level : Nat

/-- A text between brackets. -/
def bracketed (s : String) : String :=
  "(" ++ s ++ ")"

/-- The text of an operand, in brackets when its operation binds too loosely. -/
def Shown.within (s : Shown) (needsBrackets : Bool) : String :=
  if needsBrackets then bracketed s.text else s.text

/-- The text of an operator between its operands. The product of a number and its unit is
written without a sign. -/
def operatorText (t : Token) (symbol : Char) (order : Int) (a b : Shown) : String :=
  let (level, side) := t.precedence
  let left := a.within (a.level < level || (level == a.level && side != .left))
  let right := b.within (b.level < level || (level == b.level && side != .right))
  if symbol == '^' then left ++ "^" ++ right
  else if order == unitSuffixOrder then left ++ " " ++ right
  else left ++ " " ++ t.text ++ " " ++ right

/-- The text of a token with its operands. -/
def nodeText (t : Token) (operands : List Shown) : String :=
  match t, operands with
  | .negation _, [a] => t.text ++ a.within (a.level < t.precedence.1)
  | .factorial, [a] => a.within (a.level < t.precedence.1) ++ t.text
  | .operator symbol order, [a, b] => operatorText t symbol order a b
  | _, _ => t.text ++ bracketed ("; ".intercalate (operands.map Shown.text))

/-- The text of a token without operands. Blocks are shown by `blockText`. -/
def leafText (blockText : Nat → Option String) (t : Token) : String :=
  (t.blockIndex?.bind blockText).getD t.text

/-- Puts one token on the stack of texts, the last operand being on top. -/
def show? (blockText : Nat → Option String) (stack : List Shown) (t : Token) :
    Option (List Shown) :=
  let n := t.arity
  if n == 0 then some (⟨leafText blockText t, t.precedence.1⟩ :: stack)
  else if n ≤ stack.length then
    some (⟨nodeText t (stack.take n).reverse, t.precedence.1⟩ :: stack.drop n)
  else none

/-- The text of a complete program. -/
def completeText? (blockText : Nat → Option String) (program : List Token) : Option String :=
  match program.foldlM (show? blockText) [] with
  | some [s] => some s.text
  | _ => none

/-- The text of a program, with blocks shown by `blockText`. -/
def textWith (blockText : Nat → Option String) (program : List Token) : String :=
  (completeText? blockText program).getD (" ".intercalate (program.map Token.text))

/-- The text of a program, with blocks shown by their names. -/
def infixText (program : List Token) : String :=
  textWith (fun _ => none) program

end Postfix

end UnitCalc
