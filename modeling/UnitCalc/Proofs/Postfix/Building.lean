/-
# Building code

Compilation works on a stack of codes. A token takes its operands from the stack, and puts on it
what it makes of them. So a kind of code that all tokens of a program stay in, whenever their
operands are of this kind, is the kind of the whole code.

## Main definitions

* `Compilation.Builds lenient K first t`: from codes of `K` the token `t` makes codes of `K`.
* `Code.Compositional K`: operations on codes of `K` are in `K`.
* `Code.IsPure`: code without assignments.

## Main results

* `Code.builds_ofPostfix`: programs whose tokens stay in `K` have code in `K`.
* `Code.Compositional.builds`: only assignments, calls and blocks may lead out of `K`.
* `Code.isPure_of_ofPostfix`: a program without assignments has pure code.
-/

import UnitCalc.Postfix.Code
import UnitCalc.Proofs.Calculator.Failures

namespace UnitCalc

/-- The token calls a function that is not defined yet. -/
def Token.isForward : Token → Bool
  | .call none _ _ => true
  | _ => false

variable {c : Compilation} {lenient : Prop} {K : Code → Prop} {stack : List Code} {first t : Token}
  {program : List Token}

/-- From operands in `K` a token makes a code in `K`, or it fails. Only the `lenient` case has calls
of what is not defined. The program begins with `first`. -/
def Compilation.Builds (c : Compilation) (lenient : Prop) (K : Code → Prop) (first : Token) :
    Token → Prop
  | .constant value _ | .input value => ∀ x, value = some x → K (.const x)
  | .unit none _ => K (.const (.real 0))
  | .unit (some value) _ => K (.const value.collapsed)
  | .variable cell name => Finds lenient K (Code.ofVariable c cell name)
  | .negation _ => ∀ a, K a → Finds lenient K (Code.ofFunction c .negate a)
  | .factorial => ∀ a, K a → Finds lenient K (Code.ofFunction c .factorial a)
  | .function name => ∀ a, K a → Finds lenient K (Code.ofFunction c (Token.functionOf name) a)
  | .operator symbol _ => ∀ a b, K a → K b → Finds lenient K
    (if symbol == '=' then Code.ofAssignment first b
      else Code.ofOperator c (Token.operatorOf symbol) a b)
  | .binaryFunction name => ∀ a b, K a → K b →
    Finds lenient K (Code.ofBinaryFunction c (Token.binaryFunctionOf name) a b)
  | .conditional => ∀ a b d, K a → K b → K d → K (Code.ofConditional a b d)
  | .multiFunction name _ => ∀ args, (∀ a ∈ args, K a) →
    Finds lenient K (Code.ofMultiFunction c (Token.multiFunctionOf name) args)
  | .call none _ _ => lenient
  | .call (some index) _ count => ∀ args, args.length = count → (∀ a ∈ args, K a) →
    K (.call index args)
  | .block index _ => K (.block index)
  | .blank _ | .openBracket | .closeBracket | .separator => True

namespace Code

/-- A code that is put on a stack. -/
theorem builds_push {r : Except CalcError Code} (made : Finds lenient K r)
    (codes : ∀ a ∈ stack, K a) :
    Finds lenient (fun stack' => ∀ a ∈ stack', K a) (do return (← r) :: stack) :=
  made.bind fun _ holds => List.forall_mem_cons.2 ⟨holds, codes⟩

/-- A step of compilation keeps a stack of codes in `K`. -/
theorem builds_step (builds : c.Builds lenient K first t) (codes : ∀ a ∈ stack, K a) :
    Finds lenient (fun stack' => ∀ a ∈ stack', K a) (step c first stack t) := by
  have taken : ∀ {n : Nat}, ∀ a ∈ (stack.take n).reverse, K a := fun a within =>
    codes a (List.mem_of_mem_take (List.mem_reverse.1 within))
  have dropped : ∀ {n : Nat}, ∀ a ∈ stack.drop n, K a := fun a within =>
    codes a (List.mem_of_mem_drop within)
  -- The operands are on top of the stack, or there are too few.
  cases t with
  | constant value | input value =>
    cases value with
    | none => exact nofun
    | some x => exact List.forall_mem_cons.2 ⟨builds x rfl, codes⟩
  | unit value name => cases value <;> exact List.forall_mem_cons.2 ⟨builds, codes⟩
  | «variable» cell name => exact builds_push builds codes
  | negation | factorial | function =>
    obtain _ | ⟨a, rest⟩ := stack
    · exact nofun
    · rw [List.forall_mem_cons] at codes
      exact builds_push (builds a codes.1) codes.2
  | operator symbol =>
    obtain _ | ⟨b, _ | ⟨a, rest⟩⟩ := stack
    · exact nofun
    · exact nofun
    · rw [List.forall_mem_cons, List.forall_mem_cons] at codes
      have made := builds a b codes.2.1 codes.1
      simp only [step]
      split
      · next assigns =>
        rw [if_pos assigns] at made
        exact builds_push made codes.2.2
      · next other =>
        rw [if_neg other] at made
        exact builds_push made codes.2.2
  | binaryFunction name =>
    obtain _ | ⟨b, _ | ⟨a, rest⟩⟩ := stack
    · exact nofun
    · exact nofun
    · rw [List.forall_mem_cons, List.forall_mem_cons] at codes
      exact builds_push (builds a b codes.2.1 codes.1) codes.2.2
  | conditional =>
    obtain _ | ⟨whenFalse, _ | ⟨whenTrue, _ | ⟨condition, rest⟩⟩⟩ := stack
    · exact nofun
    · exact nofun
    · exact nofun
    · simp only [List.forall_mem_cons] at codes
      exact List.forall_mem_cons.2
        ⟨builds condition whenTrue whenFalse codes.2.2.1 codes.2.1 codes.1, codes.2.2.2⟩
  | multiFunction name count =>
    simp only [step]
    split
    · exact builds_push (builds _ taken) dropped
    · exact nofun
  | call index name count =>
    cases index with
    | none => exact fun _ => builds
    | some i =>
      simp only [step]
      split
      · next enough =>
        have length : (stack.take count).reverse.length = count := by
          rw [List.length_reverse, List.length_take_of_le enough]
        exact List.forall_mem_cons.2 ⟨builds _ length taken, dropped⟩
      · exact nofun
  | block index name => exact List.forall_mem_cons.2 ⟨builds, codes⟩
  | blank | openBracket | closeBracket | separator => exact nofun

/-- A program whose tokens stay in `K` has code in `K`. -/
theorem builds_ofPostfix (builds : ∀ first, ∀ t ∈ program, c.Builds lenient K first t) :
    Finds lenient K (ofPostfix c program) := by
  unfold ofPostfix
  split
  · exact nofun
  · next first rest =>
    refine (Ends.foldlM (List.forall_mem_nil _) fun stack t within codes =>
      builds_step (builds first t within) codes).bind fun stack codes => ?_
    split
    · exact codes _ List.mem_cons_self
    · exact nofun
    · exact nofun

/-- Constants, variables, and operations on codes of `K` are in `K`. -/
structure Compositional (K : Code → Prop) : Prop where
  const : ∀ value, K (.const value)
  read : ∀ cell name, K (.read cell name)
  function : ∀ f {a}, K a → K (.function f a)
  operator : ∀ o {a b}, K a → K b → K (.operator o a b)
  binaryFunction : ∀ f {a b}, K a → K b → K (.binaryFunction f a b)
  conditional : ∀ {a b d}, K a → K b → K d → K (.conditional a b d)
  multiFunction : ∀ f {args}, (∀ a ∈ args, K a) → K (.multiFunction f args)

namespace Compositional

variable {a b d : Code} (closed : Compositional K)

include closed

theorem finds_ofVariable (c : Compilation) (cell : Option CellId) (name : String) :
    Finds lenient K (ofVariable c cell name) := by
  unfold ofVariable
  split
  · exact nofun
  · split
    · exact closed.read _ name
    · split
      · exact closed.const _
      · exact closed.read _ name

/-- A value that is computed once is a constant. -/
theorem finds_folded {r : Except CalcError Value} (finds : Finds lenient (fun _ => True) r) :
    Finds lenient K (r.map Code.const) :=
  finds.map fun value _ => closed.const value

theorem finds_ofFunction (f : Function) (inside : K a) : Finds lenient K (ofFunction c f a) := by
  unfold ofFunction
  split
  · split
    · exact closed.function f inside
    · exact closed.finds_folded (c.calculator.operates_function f _).finds
  · exact closed.function f inside

theorem finds_ofOperator (o : Operator) (inside : K a) (inside' : K b) :
    Finds lenient K (ofOperator c o a b) := by
  unfold ofOperator
  split
  · exact closed.finds_folded (c.calculator.operates_operator o _ _).finds
  · exact closed.operator o inside inside'

theorem finds_ofBinaryFunction (f : BinaryFunction) (inside : K a) (inside' : K b) :
    Finds lenient K (ofBinaryFunction c f a b) := by
  unfold ofBinaryFunction
  split
  · exact closed.finds_folded (c.calculator.operates_binaryFunction f _ _).finds
  · exact closed.binaryFunction f inside inside'

theorem finds_ofMultiFunction {args : List Code} (f : MultiFunction) (inside : ∀ a ∈ args, K a) :
    Finds lenient K (ofMultiFunction c f args) := by
  unfold ofMultiFunction
  split
  · exact closed.finds_folded (c.calculator.operates_multiFunction f _).finds
  · exact closed.multiFunction f inside

theorem ofConditional (condition : K a) (whenTrue : K b) (whenFalse : K d) :
    K (ofConditional a b d) := by
  unfold Code.ofConditional
  split
  · split
    · exact whenFalse
    · exact whenTrue
  · exact closed.conditional condition whenTrue whenFalse

/-- From codes of `K` a token makes another one, if this holds of assignments, calls and blocks. -/
theorem builds
    (assigns : t.isAssignment = true → ∀ a, K a → Finds lenient K (ofAssignment first a))
    (call : ∀ index name args, t = .call (some index) name args.length → (∀ a ∈ args, K a) →
      K (.call index args))
    (block : ∀ index name, t = .block index name → K (.block index))
    (forward : t.isForward = true → lenient) : c.Builds lenient K first t := by
  cases t with
  | constant | input => exact fun x _ => closed.const x
  | unit value => cases value <;> exact closed.const _
  | «variable» cell name => exact closed.finds_ofVariable c cell name
  | negation | factorial | function => exact fun a => closed.finds_ofFunction _
  | operator symbol =>
    intro a b inside inside'
    split
    · next sign => exact assigns sign b inside'
    · exact closed.finds_ofOperator _ inside inside'
  | binaryFunction => exact fun a b => closed.finds_ofBinaryFunction _
  | conditional => exact fun a b d => closed.ofConditional
  | multiFunction => exact fun args => closed.finds_ofMultiFunction _
  | call index name count =>
    cases index with
    | none => exact forward rfl
    | some i =>
      rintro args rfl inside
      exact call i name args rfl inside
  | block index name => exact block index name rfl
  | blank | openBracket | closeBracket | separator => trivial

end Compositional

end Code

/-! ## Pure code -/

/-- Code without assignments. -/
inductive Code.IsPure : Code → Prop where
  | const (value : Value) : (Code.const value).IsPure
  | read (cell : CellId) (name : String) : (Code.read cell name).IsPure
  | function {a : Code} (f : Function) (first : a.IsPure) : (Code.function f a).IsPure
  | operator {a b : Code} (o : Operator) (first : a.IsPure) (second : b.IsPure) :
    (Code.operator o a b).IsPure
  | binaryFunction {a b : Code} (f : BinaryFunction) (first : a.IsPure) (second : b.IsPure) :
    (Code.binaryFunction f a b).IsPure
  | conditional {a b d : Code} (condition : a.IsPure) (whenTrue : b.IsPure)
    (whenFalse : d.IsPure) : (Code.conditional a b d).IsPure
  | multiFunction {args : List Code} (f : MultiFunction) (all : ∀ a ∈ args, a.IsPure) :
    (Code.multiFunction f args).IsPure
  | call {args : List Code} (index : Nat) (all : ∀ a ∈ args, a.IsPure) :
    (Code.call index args).IsPure
  | block (index : Nat) : (Code.block index).IsPure

namespace Code

namespace IsPure

variable {a b d : Code} {args : List Code}

theorem of_function {f : Function} (pure : (Code.function f a).IsPure) : a.IsPure := by
  cases pure
  assumption

theorem of_operator {o : Operator} (pure : (Code.operator o a b).IsPure) :
    a.IsPure ∧ b.IsPure := by
  cases pure
  constructor <;> assumption

theorem of_binaryFunction {f : BinaryFunction} (pure : (Code.binaryFunction f a b).IsPure) :
    a.IsPure ∧ b.IsPure := by
  cases pure
  constructor <;> assumption

theorem of_conditional (pure : (Code.conditional a b d).IsPure) :
    a.IsPure ∧ b.IsPure ∧ d.IsPure := by
  cases pure
  refine ⟨?_, ?_, ?_⟩ <;> assumption

theorem of_multiFunction {f : MultiFunction} (pure : (Code.multiFunction f args).IsPure) :
    ∀ a ∈ args, a.IsPure := by
  cases pure
  assumption

theorem of_call {index : Nat} (pure : (Code.call index args).IsPure) : ∀ a ∈ args, a.IsPure := by
  cases pure
  assumption

end IsPure

theorem compositional_isPure : Compositional IsPure where
  const := .const
  read := .read
  function f _ := .function f
  operator o _ _ := .operator o
  binaryFunction f _ _ := .binaryFunction f
  conditional := .conditional
  multiFunction f _ := .multiFunction f

/-- A program without assignments has pure code. -/
theorem isPure_of_ofPostfix {code : Code}
    (still : ∀ t ∈ program, t.isAssignment = false) (made : ofPostfix c program = .ok code) :
    code.IsPure := by
  have builds : ∀ first, ∀ t ∈ program, c.Builds True IsPure first t := by
    intro first t within
    refine compositional_isPure.builds (fun assigns => ?_) (fun index _ _ _ => .call index)
      (fun index _ _ => .block index) fun _ => trivial
    rw [still t within] at assigns
    cases assigns
  exact (builds_ofPostfix builds).of_ok made

end Code

end UnitCalc
