/-
# Changes of a session

Results that were kept and code that was compiled hold only until something that they
were derived from changes. Every cell, function and block knows what depends on it, and a
change makes all that can be reached from there forget what it kept.

## Main definitions

* `Session.forgetFrom` makes everything that depends on a change forget what it kept.
* `Session.assign`, `Session.defineUnit` and `Session.clear` change a session.
* `Session.start` is a new session.
-/

import UnitCalc.Graph
import UnitCalc.Session.Basic

namespace UnitCalc

/-- Drops the results and the code of a function. -/
def UserFunction.forget (f : UserFunction) : UserFunction :=
  { f with code := none, results := [] }

/-- Drops the code of a block. -/
def Block.forget (b : Block) : Block :=
  { b with code := none }

/-- Adds to a list of dependents what is not in it yet. -/
def Dependent.add (d : Dependent) (dependents : List Dependent) : List Dependent :=
  if dependents.contains d then dependents else dependents ++ [d]

namespace Session

/-- Changes a cell. -/
def modifyCell (s : Session) (id : CellId) (f : Cell → Cell) : Session :=
  { s with cells := s.cells.modify id f }

/-- Changes a function. -/
def modifyFunction (s : Session) (index : Nat) (f : UserFunction → UserFunction) : Session :=
  { s with functions := s.functions.modify index f }

/-- Changes a block. -/
def modifyBlock (s : Session) (index : Nat) (f : Block → Block) : Session :=
  { s with blocks := s.blocks.modify index f }

/-- A new cell. -/
def newCell (s : Session) (cell : Cell) : CellId × Session :=
  (s.cells.size, { s with cells := s.cells.push cell })

/-- A new cell for a parameter, which is set before it is read. -/
def newParameter (s : Session) : CellId × Session :=
  s.newCell { isAssigned := true }

/-- The cell of the variable of a name. A new variable has no value. -/
def cellOf (s : Session) (name : String) : CellId × Session :=
  match s.cellNames.lookup name with
  | some id => (id, s)
  | none =>
    let (id, s) := s.newCell {}
    (id, { s with cellNames := (name, id) :: s.cellNames })

/-- Drops what a function or a block keeps. -/
def forget (s : Session) : Dependent → Session
  | .function i => s.modifyFunction i UserFunction.forget
  | .block i => s.modifyBlock i Block.forget

/-- Makes the given functions and blocks, and all that depends on them, forget what they
keep. -/
def forgetFrom (s : Session) (changed : List Dependent) : Session :=
  match changed with
  | [] => s
  | _ => (Graph.reach s.dependentsOf s.dependents changed).foldl forget s

/-- Stores a value in a cell, which nobody is told about. -/
def store (s : Session) (id : CellId) (value : Value) : Session :=
  s.modifyCell id fun c => { c with value, isAssigned := true }

/-- Assigns a value to a cell. -/
def assign (s : Session) (id : CellId) (value : Value) : Session :=
  (s.store id value).forgetFrom (s.cell id).dependents

/-- Assigns a value to the variable of a name. -/
def setValue (s : Session) (name : String) (value : Value) : Session :=
  let (id, s) := s.cellOf name
  s.assign id value

/-- Makes a function or a block depend on what a token refers to. -/
def dependOn (s : Session) (d : Dependent) : Token → Session
  | .variable (some id) _ =>
    s.modifyCell id fun c => { c with dependents := d.add c.dependents }
  | .call (some index) _ _ =>
    s.modifyFunction index fun f => { f with dependents := d.add f.dependents }
  | .block index _ =>
    s.modifyBlock index fun b => { b with dependents := d.add b.dependents }
  | _ => s

/-- Makes a function or a block depend on what tokens refer to. -/
def dependOnAll (s : Session) (d : Dependent) (tokens : List Token) : Session :=
  tokens.foldl (fun s t => s.dependOn d t) s

/-- The unit of a name that a value defines: a unit of its own, or a multiple of the unit of
the value. -/
def unitOfValue (name : String) (value : Value) : Except CalcError ValueUnit :=
  if !value.isReal then .error (.notReal value.messageText)
  else match value.unit with
    | none => .ok (.named name .currency value.re)
    | some u => .ok (.named name u.dimension (u.factor * value.re))

/-- Defines a unit of the session. When it is defined anew, no code keeps its old factor. -/
def defineUnit (s : Session) (name : String) (value : Value) : Except CalcError Session := do
  let u ← unitOfValue name value
  let defined := { s with units := (name, u) :: s.units }
  return if (s.units.lookup name).isSome then defined.forgetFrom s.dependents else defined

/-- The base of the natural logarithm. -/
def eulerNumber : Float := 2.718281828459045

/-- The acceleration of gravity, in metres per second squared. -/
def gravity : Float := 9.80665

/-- The variables that a session begins with. -/
def constants (complex : Bool) : List (String × Value) :=
  let pi : Float := Scalar.pi
  let imaginary (x : Float) : Value := { num := ⟨0, x⟩ }
  [("e", .real eulerNumber), ("pi", .real pi), ("π", .real pi), ("g", .real gravity)] ++
    if complex then
      [("i", imaginary 1), ("ei", imaginary eulerNumber), ("πi", imaginary pi)]
    else []

/-- Forgets variables, units, functions and blocks. -/
def clear (s : Session) : Session :=
  let s := { s with
    blocks := #[], functions := #[], functionNames := [], units := [], cellNames := [] }
  (constants s.settings.complex).foldl (fun s (name, value) => s.setValue name value) s

/-- A new session. -/
def start (settings : Settings) (g : StdGen) : Session :=
  clear { settings, random := .ofGenerator g }

end Session

end UnitCalc
