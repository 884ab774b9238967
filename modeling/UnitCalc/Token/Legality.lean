/-
# Legality of token lists

A list of tokens is legal when every token may follow the one before it, brackets are
balanced, calls have as many separators as they need, and an assignment has a target.
Checking a list also stores the number of arguments in the calls that take any number,
and tells whether the list defines a function.

## Main definitions

* `Token.mayFollow` is the table of neighbours.
* `Legality.State` and `Legality.step` go through the list from left to right.
* `Token.check` checks a whole list.
-/

import UnitCalc.Error
import UnitCalc.Token.Basic

namespace UnitCalc

namespace Token

/-- The class of a token as a predecessor: a factorial ends an operand. -/
def classBefore (t : Token) : Class :=
  match t with
  | factorial => .value
  | _ => t.kind

/-- The class of a token as a successor: a sign starts an operand as a function does, and
a factorial continues one as an operator does. -/
def classAfter (t : Token) : Class :=
  match t with
  | negation _ => .function
  | factorial => .operator
  | _ => t.kind

/-- Whether a class may follow another one. -/
def Class.mayFollow (current previous : Class) : Bool :=
  match previous, current with
  | .start, _ | _, .start => true
  | .value, .operator | .value, .closeBracket | .value, .separator => true
  | .value, _ => false
  | .operator, .value | .operator, .function | .operator, .openBracket => true
  | .operator, _ => false
  | .function, .value | .function, .openBracket => true
  | .function, _ => false
  | .openBracket, .value | .openBracket, .function | .openBracket, .openBracket => true
  | .openBracket, _ => false
  | .closeBracket, .operator | .closeBracket, .closeBracket | .closeBracket, .separator => true
  | .closeBracket, _ => false
  | .separator, .value | .separator, .function | .separator, .openBracket => true
  | .separator, _ => false

/-- Whether a token may follow another one, or begin a statement. -/
def mayFollow (current : Token) (previous : Option Token) : Bool :=
  match previous with
  | none => true
  | some p => current.classAfter.mayFollow p.classBefore

/-- A token that cannot end a statement. -/
def isDangling : Token → Bool
  | operator _ _ | negation _ | openBracket | function _ | binaryFunction _ | multiFunction _ _
  | conditional | call _ _ _ => true
  | _ => false

end Token

namespace Legality

/-- A call of a function of many arguments whose bracket is open: its place in the list,
the brackets around it and the separators that were counted before it. -/
structure OpenCall where
  place : Nat
  depth : Nat
  separators : Int

/-- The state of the check between two tokens. `separators` counts those seen, less those
that the calls seen need. -/
structure State where
  checked : Array Token := #[]
  depth : Nat := 0
  separators : Int := 0
  seenOperator : Bool := false
  isDefinition : Bool := false
  openCalls : List OpenCall := []

/-- The count of arguments as it is stored: a negative one wraps around at 64 bits. -/
def storedCount (count : Int) : Nat :=
  if 0 ≤ count then count.toNat else (count % Nat.pow 2 64).toNat

/-- Stores the number of arguments in a call. -/
def setCount (count : Nat) : Token → Token
  | .multiFunction name _ => .multiFunction name count
  | t => t

/-- Closes a bracket, and with it the call it belongs to. -/
def closeBracket (s : State) : Except CalcError State :=
  match s.depth with
  | 0 => .error .missingLeftBracket
  | depth + 1 => match s.openCalls with
    | c :: rest =>
      if c.depth == depth then
        let count := storedCount (s.separators - c.separators + 1)
        .ok { s with
          checked := s.checked.modify c.place (setCount count)
          depth, separators := c.separators, openCalls := rest }
      else .ok { s with depth }
    | [] => .ok { s with depth }

/-- Checks an assignment: it ends the header of a definition, or follows a variable or a
unit as the first operator. -/
def assignment (header : Option String) (previous : Option Token) (s : State) :
    Except CalcError State :=
  if header.isSome && !s.isDefinition then
    .ok { s with isDefinition := true, separators := 0, seenOperator := true }
  else match previous with
    | some (.variable _ _) | some (.unit _ _) =>
      if s.seenOperator then .error .assignmentNotFirst else .ok { s with seenOperator := true }
    | _ => .error .assignmentWithoutTarget

/-- Checks a call: a definition must not call its own name. -/
def call (header : Option String) (name : String) (count : Nat) (s : State) :
    Except CalcError State :=
  if s.isDefinition && header == some name then .error (.directRecursion name)
  else if 1 < count then .ok { s with separators := s.separators - (count - 1) }
  else .ok s

/-- What a token that may stand here changes. `header` is the name of the call that the
list begins with. -/
def advance (header : Option String) (previous : Option Token) (t : Token) (s : State) :
    Except CalcError State :=
  match t with
  | .openBracket => .ok { s with depth := s.depth + 1 }
  | .closeBracket => closeBracket s
  | .separator => .ok { s with separators := s.separators + 1 }
  | .binaryFunction _ => .ok { s with separators := s.separators - 1 }
  | .conditional => .ok { s with separators := s.separators - 2 }
  | .call _ name count => call header name count s
  | .multiFunction _ _ =>
    .ok { s with openCalls := ⟨s.checked.size, s.depth, s.separators⟩ :: s.openCalls }
  | .operator symbol _ =>
    if symbol == '=' then assignment header previous s else .ok { s with seenOperator := true }
  | .negation _ => .ok { s with seenOperator := true }
  | _ => .ok s

/-- Checks one token behind `previous`. -/
def step (header : Option String) (previous : Option Token) (t : Token) (s : State) :
    Except CalcError State :=
  if t.mayFollow previous then
    (advance header previous t s).map fun s => { s with checked := s.checked.push t }
  else .error (.illegalPair ((previous.map Token.text).getD "") t.text)

/-- Checks the rest of a list behind `previous`. -/
def run (header : Option String) (previous : Option Token) :
    List Token → State → Except CalcError State
  | [], s => .ok s
  | t :: rest, s => do run header (some t) rest (← step header previous t s)

/-- What has to hold at the end of the list. -/
def finish (tokens : List Token) (s : State) : Except CalcError (List Token × Bool) :=
  if tokens.getLast?.any Token.isDangling then .error .incompleteExpression
  else match tokens.head?, s.isDefinition with
    | some (.call none name _), false => .error (.unknownFunction name)
    | _, _ =>
      if 0 < s.depth then .error .missingRightBracket
      else if 0 < s.separators then .error .unexpectedDelimiter
      else if s.separators < 0 then .error .argumentCount
      else .ok (s.checked.toList, s.isDefinition)

end Legality

/-- The name of the call that a list begins with. -/
def Token.headerName? : List Token → Option String
  | .call _ name _ :: _ => some name
  | _ => none

/-- Checks a list of tokens. The result has the argument counts of all calls filled in, and
tells whether the list is the definition of a function. -/
def Token.check (tokens : List Token) : Except CalcError (List Token × Bool) := do
  Legality.finish tokens (← Legality.run (Token.headerName? tokens) none tokens {})

end UnitCalc
