/-
# Unit expressions

A unit expression such as `kN·m/s^2` or `1000*m` is a list of numbers, names,
operators and brackets. The tokens are checked pair by pair, put into postfix
order and folded into one unit. A power binds tighter than a quotient and a
quotient tighter than a product, so the unit under a slash is the one right
behind it; all three are left associative.

## Main definitions

* `UnitToken.scan` splits a text into tokens.
* `UnitToken.check` refuses illegal neighbours and unbalanced brackets.
* `UnitToken.postfixOrder` orders tokens by precedence.
* `UnitToken.fold` evaluates a postfix list.
* `MeasureUnit.parse` puts them together and attaches a format.
-/

import UnitCalc.Measure.Conversion
import UnitCalc.Measure.Symbol
import UnitCalc.Text.Blank

namespace UnitCalc

/-- The operators of unit expressions. -/
inductive UnitOp where
  | pow
  | div
  | mul
deriving Repr, DecidableEq

/-- A lower level binds tighter. -/
def UnitOp.level : UnitOp → Nat
  | .pow => 0
  | .div => 1
  | .mul => 2

/-- The tokens of unit expressions; numbers are kept as texts until they are
evaluated. -/
inductive UnitToken where
  | number (text : String)
  | name (text : String)
  | op (o : UnitOp)
  | openBracket
  | closeBracket
deriving Repr, DecidableEq

namespace UnitToken

/-- How a token is shown in a message. -/
def text : UnitToken → String
  | .number text | .name text => text
  | .op .pow => "^"
  | .op .div => "/"
  | .op .mul => "*"
  | .openBracket => "("
  | .closeBracket => ")"

/-- A character that continues a number. -/
def isNumberPart (c : Char) : Bool :=
  c.isDigit || c == '.'

/-- The token at the front of a text, which has no blank there, and what is left
behind it. -/
def next (c : Char) (cs : List Char) : Except MeasureError (UnitToken × List Char) :=
  if c == '*' || c == '·' then .ok (.op .mul, cs)
  else if c == '/' then .ok (.op .div, cs)
  else if c == '^' then .ok (.op .pow, cs)
  else if c == '(' then .ok (.openBracket, cs)
  else if c == ')' then .ok (.closeBracket, cs)
  else if c.isDigit || c == '-' || c == '.' then
    .ok (.number (String.ofList (c :: cs.takeWhile isNumberPart)), cs.dropWhile isNumberPart)
  else if isUnitChar c then
    .ok (.name (String.ofList (c :: cs.takeWhile isUnitChar)), cs.dropWhile isUnitChar)
  else .error (.invalidSymbol c)

theorem length_le_of_next {c : Char} {cs rest : List Char} {t : UnitToken}
    (found : next c cs = .ok (t, rest)) : rest.length ≤ cs.length := by
  simp only [next] at found
  repeat' split at found
  all_goals simp only [Except.ok.injEq, Prod.mk.injEq, reduceCtorEq] at found
  all_goals obtain ⟨_, rfl⟩ := found
  all_goals first | exact Nat.le_refl _ | exact (List.dropWhile_sublist _).length_le

/-- Splits a text into tokens. -/
def scan (cs : List Char) : Except MeasureError (List UnitToken) :=
  match cs with
  | [] => .ok []
  | c :: rest =>
    if Text.isBlank c then scan rest
    else match _found : next c rest with
      | .error e => .error e
      | .ok (t, rest) => (scan rest).map (t :: ·)
termination_by cs.length
decreasing_by
  · simp
  · have := length_le_of_next _found
    simp only [List.length_cons]
    omega

/-- A token that can begin an operand. -/
def opensOperand : UnitToken → Bool
  | .number _ | .name _ | .openBracket => true
  | .op _ | .closeBracket => false

/-- Whether a token may follow another one: operands follow operators and opening
brackets, all else follows an operand. -/
def mayFollow (previous : Option UnitToken) (current : UnitToken) : Bool :=
  match previous with
  | none => true
  | some (.op _) | some .openBracket => current.opensOperand
  | some _ => !current.opensOperand

/-- Checks neighbours and brackets from left to right, `depth` brackets being open
behind `previous`. -/
def checkFrom (previous : Option UnitToken) (depth : Nat) :
    List UnitToken → Except MeasureError Unit
  | [] => match previous with
    | some (.op _) | some .openBracket => .error .incompleteExpression
    | _ => if 0 < depth then .error .missingRightBracket else .ok ()
  | t :: rest =>
    if !mayFollow previous t then
      .error (.illegalPair ((previous.map text).getD "") t.text)
    else match t with
      | .openBracket => checkFrom (some t) (depth + 1) rest
      | .closeBracket =>
        if depth == 0 then .error .missingLeftBracket else checkFrom (some t) (depth - 1) rest
      | _ => checkFrom (some t) depth rest

/-- Accepts a list of tokens whose neighbours are legal and whose brackets are
balanced. -/
def check (tokens : List UnitToken) : Except MeasureError Unit :=
  checkFrom none 0 tokens

/-- The operator on top of the stack is applied before `o` is pushed. -/
def yieldsTo (o : UnitOp) : UnitToken → Bool
  | .op top => top.level ≤ o.level
  | _ => false

/-- Orders tokens by precedence; `stack` holds the operators and brackets that
wait, the innermost first. -/
def postfixFrom (stack : List UnitToken) : List UnitToken → List UnitToken
  | [] => stack
  | t :: rest => match t with
    | .number _ | .name _ => t :: postfixFrom stack rest
    | .openBracket => postfixFrom (t :: stack) rest
    | .closeBracket =>
      stack.takeWhile (· != .openBracket) ++
        postfixFrom ((stack.dropWhile (· != .openBracket)).drop 1) rest
    | .op o => stack.takeWhile (yieldsTo o) ++ postfixFrom (t :: stack.dropWhile (yieldsTo o)) rest

/-- The tokens in postfix order, without brackets when they are balanced. -/
def postfixOrder (tokens : List UnitToken) : List UnitToken :=
  postfixFrom [] tokens

end UnitToken

/-- What a part of a unit expression evaluates to. -/
inductive UnitOperand (R E : Type) where
  | number (k : R)
  | unit (u : MeasureUnit R E)

namespace UnitOperand

variable {R E : Type} [Scalar R] [Exponent E] [Narrowing R E]

/-- Applies an operator. Numbers scale units, and exponents have to be numbers. -/
def apply (o : UnitOp) (a b : UnitOperand R E) : Except MeasureError (UnitOperand R E) :=
  match o, a, b with
  | .pow, _, .unit _ => .error .powerNotUnitless
  | .pow, .number a, .number n => .ok (.number (Scalar.pow a n))
  | .pow, .unit u, .number n => .ok (.unit (u.pow (Narrowing.narrow n)))
  | .mul, .number a, .number b => .ok (.number (a * b))
  | .mul, .number k, .unit u => .ok (.unit (u.scaled k))
  | .mul, .unit u, .number k => .ok (.unit (u.scaled k))
  | .mul, .unit a, .unit b => .ok (.unit (a.join b))
  | .div, .number a, .number b => .ok (.number (a / b))
  | .div, .number k, .unit u => .ok (.unit (u.inverse.scaled k))
  | .div, .unit u, .number k => .ok (.unit (u.scaled (1 / k)))
  | .div, .unit a, .unit b => .ok (.unit (a.joinOver b))

end UnitOperand

namespace UnitToken

variable {R E : Type} [Scalar R] [Exponent E] [Narrowing R E]

/-- One step of the evaluation of a postfix list on a stack of operands. -/
def step (find : String → Option (MeasureUnit R E)) (stack : List (UnitOperand R E)) :
    UnitToken → Except MeasureError (List (UnitOperand R E))
  | .number text => match Scalar.read text with
    | some k => .ok (.number k :: stack)
    | none => .error (.invalidNumber text)
  | .name text => match find text with
    | some u => .ok (.unit u :: stack)
    | none => .error (.unknownUnit text)
  | .op o => match stack with
    | b :: a :: rest => (UnitOperand.apply o a b).map (· :: rest)
    | _ => .error .missingOperand
  | .openBracket | .closeBracket => .error .missingOperand

/-- Evaluates a postfix list, which has to leave one unit. -/
def fold (find : String → Option (MeasureUnit R E)) (tokens : List UnitToken) :
    Except MeasureError (MeasureUnit R E) :=
  match tokens.foldlM (step find) [] with
  | .error e => .error e
  | .ok [.unit u] => .ok u
  | .ok (_ :: _ :: _) => .error .missingOperand
  | .ok _ => .error .notUnits

end UnitToken

namespace MeasureUnit

variable {R E : Type} [Scalar R] [Exponent E] [Narrowing R E]

/-- The unit that an expression without a format denotes. -/
def parseExpression (find : String → Option (MeasureUnit R E)) (cs : List Char) :
    Except MeasureError (MeasureUnit R E) := do
  let tokens ← UnitToken.scan cs
  UnitToken.check tokens
  UnitToken.fold find (UnitToken.postfixOrder tokens)

/-- The unit that a text denotes, its names being resolved by `find`. What stands
behind the first colon is the format of the unit. -/
def parse (find : String → Option (MeasureUnit R E)) (s : String) :
    Except MeasureError (MeasureUnit R E) := do
  let (expression, format) := Text.cutAt ':' s.toList
  let unit ← parseExpression find expression
  let format := Text.trimList (format.getD [])
  return if format.isEmpty then unit else unit.withFormat (String.ofList format)

end MeasureUnit

end UnitCalc
