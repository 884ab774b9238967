/-
# Scanning statements

The characters of a statement are read into tokens from left to right. What a name stands
for depends on the session and on the token before it: a unit behind a number, a function
before a bracket, or else a variable. A number with a unit behind a sign of division is put
in brackets, so that `6/2m` divides by two metres.

## Main definitions

* `CharClass.of` says what a character begins.
* `Scan` is what was read so far, with `operator`, `factorial` and `unitSuffix`.
* `Scan.run` reads all characters. Blocks are created by a parameter, which only receives
  scripts that are shorter than the statement.
-/

import UnitCalc.Session.Change
import UnitCalc.Text.Braces

namespace UnitCalc

/-- What a character begins. -/
inductive CharClass where
  | digit
  | letter
  | operator
  | exclamation
  | openBracket
  | closeBracket
  | separator
  | block
  | input
  | stop
  | unknown
deriving Repr, DecidableEq

/-- The second sign of multiplication. -/
def middleDot : Char := '·'

/-- What a character begins that is not blank. -/
def CharClass.of (c : Char) : CharClass :=
  if c.isDigit || c == '.' then .digit
  else if c == '!' then .exclamation
  else if c == '(' then .openBracket
  else if c == ')' then .closeBracket
  else if c == ';' then .separator
  else if c == '$' then .block
  else if c == '?' then .input
  else if Text.isQuote c || c == '|' then .stop
  else if c == middleDot || isOperatorSymbol c then .operator
  else if isUnitChar c then .letter
  else .unknown

/-- A character that goes on with a name. -/
def isWordChar (c : Char) : Bool :=
  c.isDigit || CharClass.of c = .letter

/-- A text shorter than a number of characters. -/
abbrev Shorter (n : Nat) :=
  { cs : List Char // cs.length < n }

namespace Shorter

/-- What is left behind the characters of a class at the front of a text. -/
def skip (p : Char → Bool) (rest : List Char) : Shorter (rest.length + 1) :=
  ⟨rest.dropWhile p, Nat.lt_succ_of_le (List.dropWhile_sublist p).length_le⟩

/-- A text that is shorter than itself and one more character. -/
def all (rest : List Char) : Shorter (rest.length + 1) :=
  ⟨rest, Nat.lt_succ_self _⟩

/-- The rest of a shorter text. -/
def tail {n : Nat} (s : Shorter n) : Shorter n :=
  ⟨s.1.tail, Nat.lt_of_le_of_lt (by simp) s.2⟩

end Shorter

/-- What was read of a statement: the tokens, the last one first, the place of the
assignment, whether the last operator divides, and whether the bracket around a divisor is
open. -/
structure Scan where
  reversed : List Token := []
  assignment : Nat := 0
  isDividing : Bool := false
  inDivisor : Bool := false

namespace Scan

/-- The tokens from left to right. -/
def tokens (s : Scan) : List Token :=
  s.reversed.reverse

/-- The last token. -/
def last? (s : Scan) : Option Token :=
  s.reversed.head?

/-- Adds a token. -/
def push (s : Scan) (t : Token) : Scan :=
  { s with reversed := t :: s.reversed }

/-- Closes the bracket around a divisor. -/
def closeDivisor (s : Scan) : Scan :=
  if s.inDivisor then { s.push .closeBracket with inDivisor := false } else s

/-- An operand has to follow, so a minus is a sign. -/
def expectsOperand (s : Scan) : Bool :=
  match s.last? with
  | none | some .openBracket | some .separator | some (.operator _ _) | some (.negation _) => true
  | _ => false

/-- The operator divides. -/
def isDivision (symbol : Char) : Bool :=
  symbol == '/' || symbol == Operator.obelus

/-- Adds an assignment; there is one at most, and only where it is allowed. -/
def assign (allowed : Bool) (s : Scan) : Except CalcError Scan :=
  if !allowed || 0 < s.assignment then .error .improperAssignment
  else .ok ({ s with assignment := s.reversed.length }.push (.ofSymbol '='))

/-- Adds an operator or a sign. Only a power belongs to the divisor before it. -/
def operator (allowed : Bool) (symbol : Char) (s : Scan) : Except CalcError Scan :=
  if symbol == '-' && s.expectsOperand then .ok (s.push (.negation Token.unordered))
  else
    let s := if symbol == '^' then s else s.closeDivisor
    let s := { s with isDividing := isDivision symbol }
    if symbol == '=' then s.assign allowed else .ok (s.push (.ofSymbol symbol))

/-- Adds a factorial, which follows a constant, a bracket or a variable. -/
def factorial (s : Scan) : Except CalcError Scan :=
  match s.last? with
  | some (.constant _ _) | some .closeBracket | some (.variable _ _) => .ok (s.push .factorial)
  | _ => .error .missingOperand

/-- Adds an opening bracket. -/
def openBracket (s : Scan) : Scan :=
  { s with isDividing := false }.push .openBracket

/-- Adds a closing bracket or a separator. -/
def endOperand (t : Token) (s : Scan) : Scan :=
  { s.closeDivisor with isDividing := false }.push t

/-- Adds the unit behind a number, with the product that joins the two. A divisor gets a
bracket in front of the number. -/
def unitSuffix (unit : Token) (s : Scan) : Scan :=
  let s := match s.isDividing && !s.inDivisor, s.reversed with
    | true, number :: before =>
      { s with reversed := number :: .openBracket :: before, inDivisor := true }
    | _, _ => s
  (s.push (.operator '*' unitSuffixOrder)).push unit

/-- Reads a number of a statement. -/
def readNumber (cs : List Char) : Except CalcError Float :=
  let text := String.ofList (Text.trimList cs)
  match Scalar.read text with
  | some x => .ok x
  | none => .error (.invalidNumber text)

/-- A digit or a point. -/
def isNumberChar (c : Char) : Bool :=
  c.isDigit || c == '.'

/-- An `i` makes the number before it imaginary, unless it is the first letter of `in`. -/
def isImaginaryMark : List Char → Bool
  | 'i' :: 'n' :: _ => false
  | 'i' :: _ => true
  | _ => false

/-- Adds a number that begins with a character. -/
def number (complex : Bool) (c : Char) (rest : List Char) (s : Scan) :
    Except CalcError (Scan × Shorter (rest.length + 1)) := do
  let digits := c :: rest.takeWhile isNumberChar
  let after := Shorter.skip isNumberChar rest
  let x ← readNumber digits
  let text := String.ofList digits
  if complex && isImaginaryMark after.1 then
    return (s.push (.constant (some { num := ⟨0, x⟩ }) (text ++ "i")), after.tail)
  else return (s.push (.constant (some (.real x)) text), after)

/-- The function of a name: a built-in one, or one of the session. -/
def functionToken? (session : Session) (name : String) : Option Token :=
  if (Function.ofName? name).isSome then some (.function name)
  else if (BinaryFunction.ofName? name).isSome then some (.binaryFunction name)
  else if (MultiFunction.ofName? name).isSome then some (.multiFunction name 0)
  else if name == conditionalName then some .conditional
  else (session.functionNames.lookup name).map fun index =>
    .call (some index) name (session.functions[index]?.elim 0 fun f => f.parameters.length)

/-- A function that does not exist is about to be defined, when its name begins the
statement. -/
def mayDefine (name : String) (s : Scan) : Bool :=
  match s.tokens.head? with
  | none => true
  | some (.call _ first _) => first == name
  | _ => false

/-- Adds the name of a function. -/
def function (session : Session) (name : String) (s : Scan) : Except CalcError Scan :=
  match functionToken? session name with
  | some t => .ok (s.push t)
  | none =>
    if s.mayDefine name then .ok (s.push (.call none name 0)) else .error (.unknownFunction name)

/-- The unit of a name as a token. -/
def unitToken (session : Session) (name : String) : Except CalcError Token :=
  match session.unit? name with
  | some u => .ok (.unit (some (.literal u)) name)
  | none => .error (.unknownUnit name)

/-- The last token takes a unit behind it. -/
def takesUnit (s : Scan) : Bool :=
  match s.last? with
  | some (.constant _ _) | some (.input _) => true
  | _ => false

/-- Adds a name that begins with a sign such as `°` or `€`: the unit that the statement
defines, or one that exists. -/
def signedUnit (session : Session) (name : String) (after : List Char) (s : Scan) :
    Except CalcError Scan :=
  if s.reversed.isEmpty && (Text.trimStart after).head? == some '=' then
    .ok (s.push (.unit none name))
  else (unitToken session name).map s.push

/-- Adds the name of a variable, which is created when it is new. -/
def variableName (name : String) (s : Scan) : SessionM Scan := do
  let (id, session) := (← get).cellOf name
  set session
  return s.push (.variable (some id) name)

/-- Adds a name in front of some characters. -/
def name (first : Char) (name : String) (after : List Char) (s : Scan) : SessionM Scan := do
  match after.head? with
  | some '$' => throw (.macroName name)
  | some '(' => SessionM.read fun session => s.function session name
  | _ =>
    if s.takesUnit then
      return s.unitSuffix (← SessionM.read fun session => unitToken session name)
    else if Text.isAlphabetic first then s.variableName name
    else SessionM.read fun session => s.signedUnit session name after

/-- Adds a word that begins with a character. Names begin with a letter or the sign of a
unit. -/
def word (c : Char) (rest : List Char) (s : Scan) :
    SessionM (Scan × Shorter (rest.length + 1)) := do
  if c == '_' then throw (.invalidFirstCharacter c)
  let after := Shorter.skip isWordChar rest
  return (← s.name c (String.ofList (c :: rest.takeWhile isWordChar)) after.1, after)

/-- The operators that are written with two characters. -/
def longOperators : List (Char × Char) :=
  [('<', '≤'), ('>', '≥'), ('=', '≡')]

/-- The operator at the front of a text. -/
def operatorAt (c : Char) (rest : List Char) : Char × Shorter (rest.length + 1) :=
  match longOperators.lookup c, rest.head? with
  | some long, some '=' => (long, (Shorter.all rest).tail)
  | _, _ => (if c == middleDot then '*' else c, .all rest)

/-- Adds a factorial, or the operator that begins as one does. -/
def exclamation (allowed : Bool) (rest : List Char) (s : Scan) :
    Except CalcError (Scan × Shorter (rest.length + 1)) := do
  match rest.head? with
  | some '=' => return (← s.operator allowed '≠', (Shorter.all rest).tail)
  | _ => return (← s.factorial, .all rest)

/-- Adds a block behind its sign. -/
def block (limit : Nat) (create : Method → Shorter limit → SessionM Nat) (rest : List Char)
    (within : rest.length < limit) (s : Scan) : SessionM (Scan × Shorter (rest.length + 1)) := do
  match opened : (Text.cutAt '{' rest).2 with
  | none => throw .blockNotOpened
  | some body =>
    let keyword := Text.trim (String.ofList (Text.cutAt '{' rest).1)
    match Method.ofKeyword? keyword with
    | none => throw (.unknownMethod ("$" ++ keyword))
    | some method => match closed : Text.braced 0 body with
      | none => throw .blockNotClosed
      | some (script, after) =>
        have shorter := (Text.length_cutAt '{' rest).2 body opened
        have parts := Text.length_braced closed
        let index ← create method ⟨script, by omega⟩
        return (s.push (.block index method.name), ⟨after, by omega⟩)

/-- Adds an input: the number in braces, or the next line that was entered. -/
def input : (rest : List Char) → Scan → SessionM (Scan × Shorter (rest.length + 1))
  | '{' :: body, s => do
    match closed : Text.braced 0 body with
    | none => throw .missingRightBracket
    | some (inside, after) =>
      have parts := Text.length_braced closed
      let x ← ofExcept (readNumber inside)
      return (s.push (.input (some (.real x))), ⟨after, by simp only [List.length_cons]; omega⟩)
  | rest, s => do
    let session ← get
    match session.isEnabled, session.input with
    | true, line :: lines =>
      set { session with input := lines }
      let x ← ofExcept (readNumber line.toList)
      return (s.push (.input (some (.real x))), .all rest)
    | _, _ => return (s.push (.input none), .all rest)

/-- Adds what begins with a character. The rest is shorter than the text was. -/
def lexeme (limit : Nat) (create : Method → Shorter limit → SessionM Nat) (allowed : Bool)
    (c : Char) (rest : List Char) (within : rest.length < limit) (s : Scan) :
    SessionM (Scan × Shorter (rest.length + 1)) := do
  if Text.isBlank c then return (s, .all rest)
  match CharClass.of c with
  | .digit => SessionM.read fun session => s.number session.settings.complex c rest
  | .letter => s.word c rest
  | .operator =>
    let (symbol, after) := operatorAt c rest
    return (← ofExcept (s.operator allowed symbol), after)
  | .exclamation => ofExcept (s.exclamation allowed rest)
  | .openBracket => return (s.openBracket, .all rest)
  | .closeBracket => return (s.endOperand .closeBracket, .all rest)
  | .separator => return (s.endOperand .separator, .all rest)
  | .block => s.block limit create rest within
  | .input => s.input rest
  | .stop | .unknown => throw (.invalidSymbol c)

/-- Reads the rest of a statement, up to a quote or a bar. -/
def run (limit : Nat) (create : Method → Shorter limit → SessionM Nat) (allowed : Bool) :
    (cs : List Char) → cs.length ≤ limit → Scan → SessionM Scan
  | [], _, s => return s.closeDivisor
  | c :: rest, within, s => do
    if CharClass.of c = .stop then return s.closeDivisor
    else
      let (s, after) ← s.lexeme limit create allowed c rest within
      run limit create allowed after.1 (Nat.le_trans (Nat.le_of_lt_succ after.2)
        (Nat.le_of_succ_le within)) s
termination_by cs => cs.length
decreasing_by exact after.2

end Scan

end UnitCalc
