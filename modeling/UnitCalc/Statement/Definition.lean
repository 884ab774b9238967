/-
# Definitions of functions

A definition such as `f(x; y) = x*y` gives a name, parameters and a body. The variables of
the body that are named like parameters read the cells of the parameters, also inside of
blocks. A definition replaces the function of its name that has as many parameters, and a
function that leads back to itself is refused, but stays defined as a function without a
value.

## Main definitions

* `Header.ofTokens` reads a definition up to its body.
* `Session.bindProgram` makes a program read the cells of parameters.
* `SessionM.define` defines a function.
-/

import UnitCalc.Postfix.Basic
import UnitCalc.Session.Change

namespace UnitCalc

/-- A definition: the name, the names of the parameters, and the tokens of the body. -/
structure Header where
  name : String
  parameters : List String
  body : List Token

namespace Header

/-- Reads parameters up to the closing bracket. `seen` holds those read, the last one first;
`expectsName` tells that the next token has to be one. -/
def readParameters (seen : List String) (expectsName : Bool) :
    List Token → Except CalcError (List String × List Token)
  | [] => .error .invalidDefinition
  | t :: rest => match expectsName, t with
    | true, .variable _ name | true, .unit _ name =>
      if seen.contains name then .error (.invalidParameter name)
      else readParameters (name :: seen) false rest
    | true, .separator | true, .closeBracket => .error .missingParameter
    | true, t => .error (.invalidParameter t.content)
    | false, .separator => readParameters seen true rest
    | false, .closeBracket => .ok (seen.reverse, rest)
    | false, _ => .error .missingParameterDelimiter

/-- Reads a definition. -/
def ofTokens (tokens : List Token) : Except CalcError Header := do
  match tokens with
  | .call _ name _ :: .openBracket :: rest =>
    match ← readParameters [] true rest with
    | (parameters, t :: body) =>
      if t.isAssignment then return ⟨name, parameters, body⟩ else throw .invalidDefinition
    | _ => throw .invalidDefinition
  | _ => throw .invalidDefinition

end Header

/-- Makes the parts of a block read the cells of parameters. -/
def Block.bind (parameters : List (String × CellId)) (b : Block) : Block :=
  let bindPart (part : Part) : Part :=
    { part with program := part.program.map (Token.bound parameters) }
  { b with
    objective := bindPart b.objective
    lower := bindPart b.lower
    upper := b.upper.map bindPart
    equation := b.equation.map bindPart
    code := none }

/-- The blocks that tokens refer to. -/
def Token.blockIndices (tokens : List Token) : List Nat :=
  tokens.filterMap Token.blockIndex?

namespace Session

/-- Makes a block, and the blocks inside of it, read the cells of parameters. The variable of
a block hides a parameter of its name. Blocks inside of another one have smaller indices. -/
def bindBlock (s : Session) (parameters : List (String × CellId)) (index : Nat) : Session :=
  match s.blocks[index]? with
  | none => s
  | some b =>
    let visible := parameters.filter fun (name, _) => name != b.unknownName
    (Token.blockIndices b.tokens).foldl
      (fun s nested => if _inside : nested < index then s.bindBlock visible nested else s)
      (s.modifyBlock index (Block.bind visible))
termination_by index

/-- Makes a program, and the blocks inside of it, read the cells of parameters. -/
def bindProgram (s : Session) (parameters : List (String × CellId)) (program : List Token) :
    List Token × Session :=
  (program.map (Token.bound parameters),
    (Token.blockIndices program).foldl (fun s index => s.bindBlock parameters index) s)

/-- New cells for parameters. -/
def newParameters (s : Session) : List String → List (String × CellId) × Session
  | [] => ([], s)
  | name :: rest =>
    let (id, s) := s.newParameter
    let (parameters, s) := s.newParameters rest
    ((name, id) :: parameters, s)

/-- Puts a function in the place of the one that it replaces, or behind all others. The
result is its index and what depends on the replaced function. -/
def install (s : Session) (f : UserFunction) : Nat × List Dependent × Session :=
  let replaced := do
    let index ← s.functionNames.lookup f.name
    let old ← s.functions[index]?
    if old.parameters.length = f.parameters.length then some (index, old.dependents) else none
  match replaced with
  | some (index, dependents) =>
    (index, dependents, s.modifyFunction index fun _ => { f with dependents })
  | none =>
    let index := s.functions.size
    (index, [], { s with
      functions := s.functions.push f
      functionNames := (f.name, index) :: s.functionNames })

/-- A function leads back to itself. -/
def isCircular (s : Session) (index : Nat) : Bool :=
  Graph.onCycle s.references s.dependents (.function index)

end Session

/-- The tokens of a function other than its parameters. -/
def UserFunction.freeTokens (f : UserFunction) : List Token :=
  f.body.filter fun
    | .variable _ name => (f.parameters.lookup name).isNone
    | _ => true

namespace SessionM

/-- Makes a program, and the blocks inside of it, read the cells of parameters. -/
def bindProgram (parameters : List (String × CellId)) (program : List Token) :
    SessionM (List Token) :=
  modifyGet fun s => s.bindProgram parameters program

/-- Defines a function, and returns its index. -/
def define (tokens : List Token) (unit : Option ValueUnit) : SessionM Nat := do
  let header ← ofExcept (Header.ofTokens tokens)
  let program ← ofExcept (Postfix.ofTokens header.body)
  if program.isEmpty then throw .incompleteExpression
  let parameters ← modifyGet fun s => s.newParameters header.parameters
  let body ← bindProgram parameters program
  let f : UserFunction := { name := header.name, parameters, body, unit }
  let (index, changed) ← modifyGet fun s =>
    let (index, changed, s) := s.install f
    ((index, changed), s)
  if (← get).isCircular index then
    modify fun s =>
      (s.modifyFunction index fun f => { f with isCircular := true }).forgetFrom changed
    throw (.circularReference header.name)
  modify fun s => (s.dependOnAll (.function index) f.freeTokens).forgetFrom changed
  return index

end SessionM

end UnitCalc
