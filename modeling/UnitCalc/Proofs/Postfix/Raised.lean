/-
# Code whose cells stand further on

Code does not depend on where cells stand. When all cells of a program stand further on, its code is
the same, and its cells stand as much further on.

## Main definitions

* `Token.raised n`, `Code.raised n`: a token, or code, with cells that stand `n` places further on.

## Main results

* `Code.Raises.ofPostfix`: the code of a program with such cells.
-/

import UnitCalc.Postfix.Code
import UnitCalc.Proofs.Token.Placeless
import UnitCalc.Session.Basic

namespace UnitCalc

/-- A token whose name denotes a cell that stands further on. -/
abbrev Token.raised (n : Nat) : Token → Token :=
  mapCell (Option.map (n + ·))

mutual

/-- Code whose cells stand further on. -/
def Code.raised (n : Nat) : Code → Code
  | .const value => .const value
  | .read cell name => .read (n + cell) name
  | .assign cell value => .assign (n + cell) (value.raised n)
  | .defineUnit name value => .defineUnit name (value.raised n)
  | .function f a => .function f (a.raised n)
  | .operator o a b => .operator o (a.raised n) (b.raised n)
  | .binaryFunction f a b => .binaryFunction f (a.raised n) (b.raised n)
  | .conditional condition whenTrue whenFalse =>
    .conditional (condition.raised n) (whenTrue.raised n) (whenFalse.raised n)
  | .multiFunction f args => .multiFunction f (Code.raisedAll n args)
  | .call index args => .call index (Code.raisedAll n args)
  | .block index => .block index

/-- Codes whose cells stand further on. -/
def Code.raisedAll (n : Nat) : List Code → List Code
  | [] => []
  | code :: rest => code.raised n :: Code.raisedAll n rest

end

/-- Named cells that stand further on. -/
abbrev raisedNames (n : Nat) (names : List (String × CellId)) : List (String × CellId) :=
  names.map fun (name, id) => (name, n + id)

theorem lookup_raisedNames (n : Nat) (names : List (String × CellId)) (name : String) :
    (raisedNames n names).lookup name = (names.lookup name).map (n + ·) := by
  induction names with
  | nil => rfl
  | cons first names ih =>
    obtain ⟨other, id⟩ := first
    rw [raisedNames, List.map_cons, List.lookup_cons, List.lookup_cons]
    cases name == other
    · exact ih
    · rfl

namespace Token

variable (n : Nat) (t : Token)

theorem reference?_raised : (t.raised n).reference? = t.reference? := by
  cases t with
  | call index => cases index <;> rfl
  | _ => rfl

theorem cell?_raised : (t.raised n).cell? = t.cell?.map (n + ·) := by
  cases t <;> rfl

theorem bound_raised (parameters : List (String × CellId)) :
    (t.raised n).bound (raisedNames n parameters) = (t.bound parameters).raised n := by
  cases t with
  | «variable» cell name =>
    simp only [mapCell, bound, lookup_raisedNames, Option.map_or]
  | _ => rfl

theorem map_bound_raised (parameters : List (String × CellId)) (ts : List Token) :
    (ts.map (raised n)).map (bound (raisedNames n parameters)) =
      (ts.map (bound parameters)).map (raised n) := by
  simp only [List.map_map, Function.comp_def, bound_raised]

theorem reference?_comp_raised : reference? ∘ raised n = reference? :=
  funext fun t => t.reference?_raised n

end Token

namespace Code

variable {n : Nat} {c c' : Compilation}

theorem raisedAll_eq_map (n : Nat) (codes : List Code) : raisedAll n codes = codes.map (raised n) := by
  induction codes with
  | nil => rw [raisedAll, List.map_nil]
  | cons code codes ih => rw [raisedAll, ih, List.map_cons]

theorem const?_raised (n : Nat) (code : Code) : (code.raised n).const? = code.const? := by
  cases code <;> simp only [raised, const?]

theorem mapM_const?_raised (n : Nat) (codes : List Code) :
    (codes.map (raised n)).mapM const? = codes.mapM const? := by
  induction codes with
  | nil => rfl
  | cons code codes ih => simp only [List.map_cons, List.mapM_cons, const?_raised, ih]

/-- Constants have no cells. -/
theorem map_const_raised (n : Nat) (r : Except CalcError Value) :
    (r.map const).map (raised n) = r.map const := by
  cases r <;> simp only [Except.map, raised]

/-- What is known of a session when code is made, and what is known of it behind dead cells. -/
structure Raises (n : Nat) (c c' : Compilation) : Prop where
  calculator : c'.calculator = c.calculator
  isAssigned : ∀ id, c'.isAssigned (n + id) = c.isAssigned id
  unit? : c'.unit? = c.unit?

namespace Raises

variable (raises : Raises n c c')

include raises

theorem ofVariable (cell : Option CellId) (name : String) :
    Code.ofVariable c' (cell.map (n + ·)) name = (Code.ofVariable c cell name).map (raised n) := by
  cases cell with
  | none => rfl
  | some id =>
    simp only [Option.map_some, Code.ofVariable, raises.isAssigned, raises.unit?]
    split
    · simp only [Except.map, raised]
    · cases c.unit? name <;> simp only [Except.map, raised]

theorem ofFunction (f : Function) (a : Code) :
    Code.ofFunction c' f (a.raised n) = (Code.ofFunction c f a).map (raised n) := by
  cases a with
  | const x =>
    simp only [raised, Code.ofFunction, raises.calculator]
    split
    · simp only [Except.map, raised]
    · exact (map_const_raised n _).symm
  | _ => simp only [raised, Code.ofFunction, Except.map]

theorem ofOperator (o : Operator) (a b : Code) :
    Code.ofOperator c' o (a.raised n) (b.raised n) = (Code.ofOperator c o a b).map (raised n) := by
  cases a with
  | const x =>
    cases b with
    | const y =>
      simp only [raised, Code.ofOperator, raises.calculator]
      exact (map_const_raised n _).symm
    | _ => simp only [raised, Code.ofOperator, Except.map]
  | _ => simp only [raised, Code.ofOperator, Except.map]

theorem ofBinaryFunction (f : BinaryFunction) (a b : Code) :
    Code.ofBinaryFunction c' f (a.raised n) (b.raised n) =
      (Code.ofBinaryFunction c f a b).map (raised n) := by
  cases a with
  | const x =>
    cases b with
    | const y =>
      simp only [raised, Code.ofBinaryFunction, raises.calculator]
      exact (map_const_raised n _).symm
    | _ => simp only [raised, Code.ofBinaryFunction, Except.map]
  | _ => simp only [raised, Code.ofBinaryFunction, Except.map]

theorem ofMultiFunction (f : MultiFunction) (args : List Code) :
    Code.ofMultiFunction c' f (args.map (raised n)) =
      (Code.ofMultiFunction c f args).map (raised n) := by
  simp only [Code.ofMultiFunction, mapM_const?_raised, raises.calculator]
  cases args.mapM const? with
  | none => simp only [Except.map, raised, raisedAll_eq_map]
  | some values => exact (map_const_raised n _).symm

omit raises in
theorem ofConditional (condition whenTrue whenFalse : Code) :
    Code.ofConditional (condition.raised n) (whenTrue.raised n) (whenFalse.raised n) =
      (Code.ofConditional condition whenTrue whenFalse).raised n := by
  cases condition with
  | const x =>
    simp only [raised, Code.ofConditional]
    split <;> rfl
  | _ => simp only [raised, Code.ofConditional]

omit raises in
theorem ofAssignment (target : Token) (value : Code) :
    Code.ofAssignment (target.raised n) (value.raised n) =
      (Code.ofAssignment target value).map (raised n) := by
  cases target with
  | «variable» cell =>
    cases cell <;> simp only [Token.mapCell, Option.map, Code.ofAssignment, Except.map, raised]
  | unit value => cases value <;> simp only [Token.mapCell, Code.ofAssignment, Except.map, raised]
  | _ => rfl

theorem step (first : Token) (stack : List Code) (t : Token) :
    Code.step c' (first.raised n) (stack.map (raised n)) (t.raised n) =
      (Code.step c first stack t).map (List.map (raised n)) := by
  cases t with
  | constant value text =>
    cases value with
    | none => rfl
    | some value => simp [Code.step, Token.mapCell, literal, Except.map, raised, bind, Except.bind,
        pure, Except.pure]
  | unit value name => cases value <;> simp [Code.step, Token.mapCell, Except.map, raised]
  | input value => cases value <;> simp [Code.step, Token.mapCell, Except.map, raised]
  | «variable» cell name =>
    simp only [Code.step, Token.mapCell, raises.ofVariable]
    cases Code.ofVariable c cell name <;> rfl
  | negation =>
    cases stack with
    | nil => rfl
    | cons a rest =>
      simp only [Code.step, Token.mapCell, List.map_cons, raises.ofFunction]
      cases Code.ofFunction c .negate a <;> rfl
  | factorial =>
    cases stack with
    | nil => rfl
    | cons a rest =>
      simp only [Code.step, Token.mapCell, List.map_cons, raises.ofFunction]
      cases Code.ofFunction c .factorial a <;> rfl
  | function name =>
    cases stack with
    | nil => rfl
    | cons a rest =>
      simp only [Code.step, Token.mapCell, List.map_cons, raises.ofFunction]
      cases Code.ofFunction c (Token.functionOf name) a <;> rfl
  | operator symbol =>
    rcases stack with _ | ⟨b, _ | ⟨a, rest⟩⟩
    · rfl
    · rfl
    · simp only [Code.step, Token.mapCell, List.map_cons, raises.ofOperator]
      split
      · rw [ofAssignment]
        cases Code.ofAssignment first b <;> rfl
      · cases Code.ofOperator c (Token.operatorOf symbol) a b <;> rfl
  | binaryFunction name =>
    rcases stack with _ | ⟨b, _ | ⟨a, rest⟩⟩
    · rfl
    · rfl
    · simp only [Code.step, Token.mapCell, List.map_cons, raises.ofBinaryFunction]
      cases Code.ofBinaryFunction c (Token.binaryFunctionOf name) a b <;> rfl
  | conditional =>
    rcases stack with _ | ⟨whenFalse, _ | ⟨whenTrue, _ | ⟨condition, rest⟩⟩⟩
    · rfl
    · rfl
    · rfl
    · simp only [Code.step, Token.mapCell, List.map_cons, ofConditional, Except.map]
  | multiFunction name count =>
    simp only [Code.step, Token.mapCell, List.length_map, ← List.map_take, ← List.map_drop,
      ← List.map_reverse, raises.ofMultiFunction]
    split
    · cases Code.ofMultiFunction c (Token.multiFunctionOf name) (stack.take count).reverse <;> rfl
    · rfl
  | call index name count =>
    cases index with
    | none => rfl
    | some index =>
      simp only [Code.step, Token.mapCell, List.length_map, ← List.map_take, ← List.map_drop,
        ← List.map_reverse]
      split
      · simp only [Except.map, List.map_cons, raised, raisedAll_eq_map]
      · rfl
  | block index => simp only [Code.step, Token.mapCell, Except.map, List.map_cons, raised]
  | blank | openBracket | closeBracket | separator => rfl

theorem foldlM_step (first : Token) (program : List Token) (stack : List Code) :
    (program.map (Token.raised n)).foldlM (Code.step c' (first.raised n)) (stack.map (raised n)) =
      (program.foldlM (Code.step c first) stack).map (List.map (raised n)) := by
  induction program generalizing stack with
  | nil => rfl
  | cons t program ih =>
    rw [List.map_cons, List.foldlM_cons, List.foldlM_cons, raises.step]
    cases Code.step c first stack t with
    | error e => rfl
    | ok stack' => exact ih stack'

/-- Code that is made behind dead cells. -/
theorem ofPostfix (program : List Token) :
    Code.ofPostfix c' (program.map (Token.raised n)) =
      (Code.ofPostfix c program).map (raised n) := by
  cases program with
  | nil => rfl
  | cons first rest =>
    have folded := raises.foldlM_step first (first :: rest) []
    rw [List.map_nil] at folded
    rw [List.map_cons] at folded ⊢
    simp only [Code.ofPostfix, folded]
    cases (first :: rest).foldlM (Code.step c first) [] with
    | error e => rfl
    | ok stack =>
      rcases stack with _ | ⟨code, _ | ⟨other, more⟩⟩ <;> rfl

end Raises

end Code

end UnitCalc
