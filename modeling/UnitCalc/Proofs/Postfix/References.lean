/-
# What compiled code refers to

A token enters a function with a number of arguments, or a block. Compilation drops parts of a
program, but it never adds a call or a block. So compiled code only enters what its program enters,
and compilation finds all of it, unless a call is of a function that is not defined.

## Main definitions

* `Entry`: what a token or a code enters.
* `Code.Enters callee code`: all that `code` enters is in `callee`.
* `Code.Within callee code`: all functions and blocks that `code` refers to are in `callee`.

## Main results

* `Code.finds_ofPostfix`: compiled code enters nothing that its program does not enter.
-/

import UnitCalc.Proofs.Postfix.Building
import UnitCalc.Session.Basic

namespace UnitCalc

/-- What a token or a code enters: a function with a number of arguments, or a block. -/
inductive Entry where
  | call (index count : Nat)
  | block (index : Nat)
deriving Repr, DecidableEq

/-- The function or block that is entered. -/
def Entry.dependent : Entry → Dependent
  | .call index _ => .function index
  | .block index => .block index

namespace Token

/-- What a token enters. -/
def entry? : Token → Option Entry
  | .call (some index) _ count => some (.call index count)
  | .block index _ => some (.block index)
  | _ => none

theorem reference?_eq (t : Token) : t.reference? = t.entry?.map Entry.dependent := by
  cases t with
  | call index name count => cases index <;> rfl
  | _ => rfl

end Token

/-- Code that refers to the functions and blocks of `callee` only. -/
inductive Code.Within (callee : Dependent → Prop) : Code → Prop where
  | const (value : Value) : (Code.const value).Within callee
  | read (cell : CellId) (name : String) : (Code.read cell name).Within callee
  | assign {a : Code} (cell : CellId) (value : a.Within callee) : (Code.assign cell a).Within callee
  | defineUnit {a : Code} (name : String) (value : a.Within callee) :
    (Code.defineUnit name a).Within callee
  | function {a : Code} (f : Function) (first : a.Within callee) :
    (Code.function f a).Within callee
  | operator {a b : Code} (o : Operator) (first : a.Within callee) (second : b.Within callee) :
    (Code.operator o a b).Within callee
  | binaryFunction {a b : Code} (f : BinaryFunction) (first : a.Within callee)
    (second : b.Within callee) : (Code.binaryFunction f a b).Within callee
  | conditional {a b d : Code} (condition : a.Within callee) (whenTrue : b.Within callee)
    (whenFalse : d.Within callee) : (Code.conditional a b d).Within callee
  | multiFunction {args : List Code} (f : MultiFunction) (all : ∀ a ∈ args, a.Within callee) :
    (Code.multiFunction f args).Within callee
  | call {index : Nat} {args : List Code} (known : callee (.function index))
    (all : ∀ a ∈ args, a.Within callee) : (Code.call index args).Within callee
  | block {index : Nat} (known : callee (.block index)) : (Code.block index).Within callee

/-- Code that enters functions and blocks of `callee` only, with as many arguments as there. -/
inductive Code.Enters (callee : Entry → Prop) : Code → Prop where
  | const (value : Value) : (Code.const value).Enters callee
  | read (cell : CellId) (name : String) : (Code.read cell name).Enters callee
  | assign {a : Code} (cell : CellId) (value : a.Enters callee) : (Code.assign cell a).Enters callee
  | defineUnit {a : Code} (name : String) (value : a.Enters callee) :
    (Code.defineUnit name a).Enters callee
  | function {a : Code} (f : Function) (first : a.Enters callee) :
    (Code.function f a).Enters callee
  | operator {a b : Code} (o : Operator) (first : a.Enters callee) (second : b.Enters callee) :
    (Code.operator o a b).Enters callee
  | binaryFunction {a b : Code} (f : BinaryFunction) (first : a.Enters callee)
    (second : b.Enters callee) : (Code.binaryFunction f a b).Enters callee
  | conditional {a b d : Code} (condition : a.Enters callee) (whenTrue : b.Enters callee)
    (whenFalse : d.Enters callee) : (Code.conditional a b d).Enters callee
  | multiFunction {args : List Code} (f : MultiFunction) (all : ∀ a ∈ args, a.Enters callee) :
    (Code.multiFunction f args).Enters callee
  | call {index : Nat} {args : List Code} (known : callee (.call index args.length))
    (all : ∀ a ∈ args, a.Enters callee) : (Code.call index args).Enters callee
  | block {index : Nat} (known : callee (.block index)) : (Code.block index).Enters callee

namespace Code

variable {c : Compilation} {callee wider : Entry → Prop} {a b d code : Code}
  {t first : Token} {program : List Token} {lenient : Prop}

theorem Enters.mono (enters : code.Enters callee) (more : ∀ e, callee e → wider e) :
    code.Enters wider := by
  induction enters with
  | const value => exact .const value
  | read cell name => exact .read cell name
  | assign cell _ ih => exact .assign cell ih
  | defineUnit name _ ih => exact .defineUnit name ih
  | function f _ ih => exact .function f ih
  | operator o _ _ ih ih' => exact .operator o ih ih'
  | binaryFunction f _ _ ih ih' => exact .binaryFunction f ih ih'
  | conditional _ _ _ ih ih' ih'' => exact .conditional ih ih' ih''
  | multiFunction f _ ih => exact .multiFunction f ih
  | call known _ ih => exact .call (more _ known) ih
  | block known => exact .block (more _ known)

/-- All code enters functions and blocks. -/
theorem enters_all : ∀ code : Code, code.Enters fun _ => True
  | const value => .const value
  | read cell name => .read cell name
  | assign cell a => .assign cell (enters_all a)
  | defineUnit name a => .defineUnit name (enters_all a)
  | function f a => .function f (enters_all a)
  | operator o a b => .operator o (enters_all a) (enters_all b)
  | binaryFunction f a b => .binaryFunction f (enters_all a) (enters_all b)
  | conditional a b d => .conditional (enters_all a) (enters_all b) (enters_all d)
  | multiFunction f args => .multiFunction f fun a _ => enters_all a
  | call _ args => .call trivial fun a _ => enters_all a
  | block _ => .block trivial

/-- Code that enters what it refers to. -/
theorem Within.enters {callee : Dependent → Prop} (within : code.Within callee) :
    code.Enters fun e => callee e.dependent := by
  induction within with
  | const value => exact .const value
  | read cell name => exact .read cell name
  | assign cell _ ih => exact .assign cell ih
  | defineUnit name _ ih => exact .defineUnit name ih
  | function f _ ih => exact .function f ih
  | operator o _ _ ih ih' => exact .operator o ih ih'
  | binaryFunction f _ _ ih ih' => exact .binaryFunction f ih ih'
  | conditional _ _ _ ih ih' ih'' => exact .conditional ih ih' ih''
  | multiFunction f _ ih => exact .multiFunction f ih
  | call known _ ih => exact .call known ih
  | block known => exact .block known

/-- Code refers to what it enters. -/
theorem Enters.within {callee : Dependent → Prop}
    (enters : code.Enters fun e => callee e.dependent) : code.Within callee := by
  induction enters with
  | const value => exact .const value
  | read cell name => exact .read cell name
  | assign cell _ ih => exact .assign cell ih
  | defineUnit name _ ih => exact .defineUnit name ih
  | function f _ ih => exact .function f ih
  | operator o _ _ ih ih' => exact .operator o ih ih'
  | binaryFunction f _ _ ih ih' => exact .binaryFunction f ih ih'
  | conditional _ _ _ ih ih' ih'' => exact .conditional ih ih' ih''
  | multiFunction f _ ih => exact .multiFunction f ih
  | call known _ ih => exact .call known ih
  | block known => exact .block known

/-! ## Compilation -/

theorem compositional_enters (callee : Entry → Prop) : Compositional (Enters callee) where
  const := .const
  read := .read
  function f _ := .function f
  operator o _ _ := .operator o
  binaryFunction f _ _ := .binaryFunction f
  conditional := .conditional
  multiFunction f _ := .multiFunction f

theorem finds_ofAssignment (target : Token) (inside : a.Enters callee) :
    Finds lenient (Enters callee) (ofAssignment target a) := by
  unfold ofAssignment
  split
  · exact .assign _ inside
  · exact .defineUnit _ inside
  · exact nofun

/-- From codes that enter what is in `callee` a token that does so too makes another one. -/
theorem builds_enters (known : ∀ e ∈ t.entry?, callee e) (forward : t.isForward = true → lenient) :
    c.Builds lenient (Enters callee) first t := by
  refine (compositional_enters callee).builds (fun _ a => finds_ofAssignment first) ?_ ?_ forward
  · rintro index name args rfl inside
    exact .call (known _ rfl) inside
  · rintro index name rfl
    exact .block (known _ rfl)

/-- Compiled code enters nothing that its program does not enter, and all of it is found. -/
theorem finds_ofPostfix (known : ∀ t ∈ program, ∀ e ∈ t.entry?, callee e)
    (forward : ∀ t ∈ program, t.isForward = true → lenient) :
    Finds lenient (Enters callee) (ofPostfix c program) :=
  builds_ofPostfix fun _ t within => builds_enters (known t within) (forward t within)

end Code

end UnitCalc
