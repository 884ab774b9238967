/-
# Numeric code

The code of a numeric program only reads variables, calculates and calls the functions of the
program. It does not depend on the session that it was made in, apart from the settings, and
it has plain values wherever variables and calls do.

## Main definitions

* `Code.IsNumeric`: code over plain numbers that calls some functions.
* `Compilation.IsNumeric`: names are no units.

## Main results

* `Code.isNumeric_ofPostfix`, `Code.ofPostfix_congr`: the code of a numeric program.
* `Code.IsNumeric.keeps`: numeric code has plain values.
-/

import UnitCalc.Proofs.Postfix.Numeric
import UnitCalc.Proofs.Postfix.Building

namespace UnitCalc

open SessionM

/-- Names that are no built-in units are no units at all. -/
def Compilation.IsNumeric (c : Compilation) : Prop :=
  ∀ name, noUnit name = true → c.unit? name = none

/-- Code over plain numbers and names that are no units. It may call the functions of
`callee`. -/
inductive Code.IsNumeric (callee : Nat → Prop) : Code → Prop where
  | const {value : Value} (plain : value.IsPlain) : (Code.const value).IsNumeric callee
  | read {name : String} (cell : CellId) (free : noUnit name = true) :
    (Code.read cell name).IsNumeric callee
  | function {f : Function} {a : Code} (plain : f ≠ .random) (noAngle : f.returnsAngle = false)
    (first : a.IsNumeric callee) : (Code.function f a).IsNumeric callee
  | operator {a b : Code} (o : Operator) (first : a.IsNumeric callee)
    (second : b.IsNumeric callee) : (Code.operator o a b).IsNumeric callee
  | binaryFunction {f : BinaryFunction} {a b : Code} (noAngle : f.returnsAngle = false)
    (first : a.IsNumeric callee) (second : b.IsNumeric callee) :
    (Code.binaryFunction f a b).IsNumeric callee
  | conditional {a b d : Code} (condition : a.IsNumeric callee) (whenTrue : b.IsNumeric callee)
    (whenFalse : d.IsNumeric callee) : (Code.conditional a b d).IsNumeric callee
  | multiFunction {args : List Code} (f : MultiFunction)
    (all : ∀ a ∈ args, a.IsNumeric callee) : (Code.multiFunction f args).IsNumeric callee
  | call {index : Nat} {args : List Code} (known : callee index)
    (all : ∀ a ∈ args, a.IsNumeric callee) : (Code.call index args).IsNumeric callee

namespace Code

variable {c d : Compilation} {callee : Nat → Prop} {a b e code : Code} {stack : List Code}
  {t first : Token} {program : List Token}

theorem IsNumeric.value {x : Value} (numeric : (Code.const x).IsNumeric callee) : x.IsPlain := by
  cases numeric
  assumption

/-- The code of a plain result that was calculated. -/
theorem finds_plain {r : Except CalcError Value} (plain : ∀ x, r = .ok x → x.IsPlain) :
    Finds True (IsNumeric callee) (r.map const) := by
  cases r with
  | error e => exact fun _ => trivial
  | ok x => exact .const (plain x rfl)

theorem isNumeric_ofFunction {f : Function} (plain : f ≠ .random)
    (noAngle : f.returnsAngle = false) (numeric : a.IsNumeric callee) :
    Finds True (IsNumeric callee) (ofFunction c f a) := by
  unfold ofFunction
  split
  · rw [if_neg plain]
    exact finds_plain fun _ => Calculator.isPlain_function noAngle numeric.value
  · exact .function plain noAngle numeric

theorem isNumeric_ofOperator {o : Operator} (numeric : a.IsNumeric callee)
    (numeric' : b.IsNumeric callee) : Finds True (IsNumeric callee) (ofOperator c o a b) := by
  unfold ofOperator
  split
  · exact finds_plain fun _ => Calculator.isPlain_operator numeric.value numeric'.value
  · exact .operator o numeric numeric'

theorem isNumeric_ofBinaryFunction {f : BinaryFunction} (noAngle : f.returnsAngle = false)
    (numeric : a.IsNumeric callee) (numeric' : b.IsNumeric callee) :
    Finds True (IsNumeric callee) (ofBinaryFunction c f a b) := by
  unfold ofBinaryFunction
  split
  · exact finds_plain fun _ => Calculator.isPlain_binaryFunction noAngle numeric.value
  · exact .binaryFunction noAngle numeric numeric'

theorem isNumeric_ofConditional (condition : a.IsNumeric callee) (whenTrue : b.IsNumeric callee)
    (whenFalse : e.IsNumeric callee) : (ofConditional a b e).IsNumeric callee := by
  unfold ofConditional
  split
  · split <;> assumption
  · exact .conditional condition whenTrue whenFalse

/-- Constants among numeric codes are plain numbers. -/
theorem forall_isPlain_of_constants {args : List Code} {values : List Value}
    (all : ∀ a ∈ args, a.IsNumeric callee) (constants : args.mapM const? = some values) :
    ∀ x ∈ values, x.IsPlain := by
  induction args generalizing values with
  | nil =>
    cases constants
    exact List.forall_mem_nil _
  | cons a args ih =>
    rw [List.forall_mem_cons] at all
    rw [List.mapM_cons] at constants
    obtain ⟨x, literal, others⟩ := Option.bind_eq_some_iff.1 constants
    obtain ⟨xs, literals, same⟩ := Option.bind_eq_some_iff.1 others
    cases same
    cases a <;> cases literal
    exact List.forall_mem_cons.2 ⟨all.1.value, ih all.2 literals⟩

theorem isNumeric_ofMultiFunction {f : MultiFunction} {args : List Code}
    (all : ∀ a ∈ args, a.IsNumeric callee) :
    Finds True (IsNumeric callee) (ofMultiFunction c f args) := by
  unfold ofMultiFunction
  split
  · next constants =>
    have plain := forall_isPlain_of_constants all constants
    exact finds_plain fun _ => Calculator.isPlain_multiFunction plain
  · exact .multiFunction f all

/-- What compilation does with a numeric token. -/
theorem builds_isNumeric (plain : c.IsNumeric) (numeric : t.isNumeric = true)
    (known : ∀ index name count, t = .call (some index) name count → callee index) :
    c.Builds True (IsNumeric callee) first t := by
  cases t with
  | constant value =>
    rintro x rfl
    exact .const (Quantity.isPlain_iff.1 numeric)
  | unit | input | block => cases numeric
  | «variable» cell name =>
    -- the name is no unit, so the code reads the variable
    cases cell with
    | none => exact fun _ => trivial
    | some id =>
      simp only [Compilation.Builds, ofVariable, plain name numeric, ite_self]
      exact .read id numeric
  | negation | factorial => exact fun a => isNumeric_ofFunction (by decide) rfl
  | function name =>
    simp only [Token.isNumeric, Bool.and_eq_true, bne_iff_ne, Bool.not_eq_true'] at numeric
    exact fun a => isNumeric_ofFunction numeric.1 numeric.2
  | operator symbol =>
    simp only [Token.isNumeric, bne_iff_ne] at numeric
    simp only [Compilation.Builds, beq_false_of_ne numeric, Bool.false_eq_true, if_false]
    exact fun a b => isNumeric_ofOperator
  | binaryFunction name =>
    simp only [Token.isNumeric, Bool.not_eq_true'] at numeric
    exact fun a b => isNumeric_ofBinaryFunction numeric
  | conditional => exact fun a b e => isNumeric_ofConditional
  | multiFunction => exact fun args => isNumeric_ofMultiFunction
  | call index name count =>
    cases index with
    | none => trivial
    | some i => exact fun args _ => .call (known i name count rfl)
  | blank | openBracket | closeBracket | separator => trivial

/-- The code of a numeric program is numeric, and calls what the program calls. -/
theorem isNumeric_ofPostfix (plain : c.IsNumeric) (numeric : ∀ t ∈ program, t.isNumeric = true)
    (known : ∀ index name count, .call (some index) name count ∈ program → callee index)
    (compiled : ofPostfix c program = .ok code) : code.IsNumeric callee := by
  have builds : ∀ first, ∀ t ∈ program, c.Builds True (IsNumeric callee) first t :=
    fun _ t within => builds_isNumeric plain (numeric t within) fun index name count same =>
      known index name count (same ▸ within)
  exact (builds_ofPostfix builds).of_ok compiled

/-- A numeric program has the same code in sessions with the same settings. -/
theorem ofPostfix_congr (alike : c.calculator.Alike d.calculator) (plain : c.IsNumeric)
    (plain' : d.IsNumeric) (numeric : ∀ t ∈ program, t.isNumeric = true) :
    ofPostfix c program = ofPostfix d program := by
  refine ofPostfix_eq_of_steps fun t within =>
    step_eq_of_agrees (fun _ => Token.agrees_of_alike alike (numeric t within)) ?_
  -- Only names depend on the session, and those of numeric tokens are no units in either.
  rintro cell name rfl
  have other : noUnit name = true := numeric _ within
  cases cell with
  | none => rfl
  | some id => simp only [ofVariable, plain name other, plain' name other, ite_self]

end Code

/-- In the sessions of `J` variables are plain numbers, names that are no built-in units are
no units, and calls of plain numbers have plain values and stay in `J`. -/
structure Calls.KeepPlain (calls : Calls) (callee : Nat → Prop) (J : Session → Prop) : Prop where
  names : ∀ s, J s → s.compilation.IsNumeric
  cells : ∀ s, J s → ∀ id x, s.assigned? id = some x → x.IsPlain
  called : ∀ index args, callee index → (∀ a ∈ args, a.IsPlain) →
    Keeps J Quantity.IsPlain (calls.function index args)

namespace Code

variable {calls : Calls} {callee : Nat → Prop} {J : Session → Prop} {code : Code}

theorem keeps_runAll {args : List Code}
    (each : ∀ a ∈ args, Keeps J Quantity.IsPlain (a.run calls)) :
    Keeps J (fun values => ∀ x ∈ values, x.IsPlain) (Code.runAll calls args) := by
  induction args with
  | nil =>
    rw [Code.runAll]
    exact .pure (List.forall_mem_nil _)
  | cons a args ih =>
    rw [List.forall_mem_cons] at each
    rw [Code.runAll]
    exact each.1.bind fun x plain => (ih each.2).bind fun xs others =>
      .pure (List.forall_mem_cons.2 ⟨plain, others⟩)

/-- A variable of a numeric program has a plain number, or no value. -/
theorem keeps_read (kept : calls.KeepPlain callee J) {name : String} (cell : CellId)
    (free : noUnit name = true) : Keeps J Quantity.IsPlain ((read cell name).run calls) := by
  intro s holds
  rw [run, outcome_bind_ok (outcome_get s)]
  cases assigned : s.assigned? cell with
  | some x =>
    refine ⟨holds, fun a same => ?_⟩
    cases same
    exact kept.cells s holds cell x assigned
  | none =>
    have none : s.unit? name = none := kept.names s holds name free
    simp only [unitValue]
    rw [outcome_bind_ok (outcome_get s), none]
    exact ⟨holds, fun _ same => by cases same⟩

/-- Numeric code has plain values, and stays in the sessions that its calls stay in. -/
theorem IsNumeric.keeps (kept : calls.KeepPlain callee J) (numeric : code.IsNumeric callee) :
    Keeps J Quantity.IsPlain (code.run calls) := by
  -- The induction is on the numeric code, one case for each way to make it.
  induction numeric with
  | const plain =>
    rw [run]
    exact .pure plain
  | read cell free => exact keeps_read kept cell free
  | function plain noAngle first ih =>
    rw [run]
    refine ih.bind fun x plain' => ?_
    rw [applyFunction_of_ne_random plain]
    exact .read fun s _ y applied => Calculator.isPlain_function noAngle plain' applied
  | operator o first second ih ih' =>
    rw [run]
    exact ih.bind fun x plain => ih'.bind fun y plain' =>
      .read fun s _ z applied => Calculator.isPlain_operator plain plain' applied
  | binaryFunction noAngle first second ih ih' =>
    rw [run]
    exact ih.bind fun x plain => ih'.bind fun y _ =>
      .read fun s _ z applied => Calculator.isPlain_binaryFunction noAngle plain applied
  | conditional condition whenTrue whenFalse ih ih' ih'' =>
    rw [run]
    refine ih.bind fun x _ => ?_
    split
    · exact ih''
    · exact ih'
  | multiFunction f all ih =>
    rw [run]
    exact (keeps_runAll ih).bind fun xs plain =>
      .read fun s _ y applied => Calculator.isPlain_multiFunction plain applied
  | call known all ih =>
    rw [run]
    exact (keeps_runAll ih).bind fun xs plain => kept.called _ xs known plain

end Code

end UnitCalc
