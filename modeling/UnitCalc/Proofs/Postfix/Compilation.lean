/-
# Compilation keeps meanings

A program that has a value compiles, and its code yields that value: parts that are folded when
the program is compiled have the values that they would have later, and a conditional leaves
out a branch whose value is not wanted. During compilation every code on the stack means the
value that a run of the program has at its place.

## Main definitions

* `Code.Means`: the code yields a value, and holds it when it is a constant.
* `Token.Agrees`: two calculators do the same for a token.
* `Compilation.Fits`: what compilation and the sessions of a run have to provide for a token.

## Main results

* `Code.exists_means`: the code of a program means the value of the program.
* `Code.step_eq_of_agrees`: what a step of compilation depends on.
-/

import Mathlib.Data.List.Forall2
import UnitCalc.Proofs.Postfix.Meaning
import UnitCalc.Proofs.Session.Outcome

namespace UnitCalc

open SessionM
open List (Forall₂)

variable {calls : Calls} {J : Session → Prop} {c : Compilation} {m : Meaning}

namespace Code

theorem run_const (calls : Calls) (value : Value) : (const value).run calls = pure value := by
  rw [run]

/-- A code yields a value in the sessions of `J`. A constant is that value. -/
structure Means (calls : Calls) (J : Session → Prop) (value : Value)
    (code : Code) : Prop where
  yields : Yields J (code.run calls) value
  constant : ∀ x, code = const x → x = value

variable {value x y z : Value} {a b d : Code}

theorem Means.const (value : Value) : Means calls J value (.const value) :=
  ⟨by rw [run_const]; exact .pure value, fun _ same => (Code.const.inj same).symm⟩

/-- Codes that mean values yield all of them. -/
theorem yields_runAll {values : List Value} {codes : List Code}
    (means : Forall₂ (Means calls J) values codes) :
    Yields J (Code.runAll calls codes) values := by
  induction means with
  | nil =>
    rw [Code.runAll]
    exact .pure []
  | cons first _ ih =>
    rw [Code.runAll]
    exact first.yields.bind (ih.bind (.pure _))

theorem applyFunction_of_ne_random {f : Function} (plain : f ≠ .random) (x : Value) :
    applyFunction f x = SessionM.read fun s => s.calculator.function f x := by
  simp [applyFunction, plain]

/-- Codes that are all constants are the values that they mean. -/
theorem constants_eq {values constants : List Value} {codes : List Code}
    (means : Forall₂ (Means calls J) values codes)
    (literals : codes.mapM const? = some constants) : constants = values := by
  induction means generalizing constants with
  | nil => simpa using literals.symm
  | @cons value code _ _ first _ ih =>
    rw [List.mapM_cons] at literals
    obtain ⟨x, literal, others⟩ := Option.bind_eq_some_iff.1 literals
    obtain ⟨xs, literals, same⟩ := Option.bind_eq_some_iff.1 others
    have isConst : code = .const x := by cases code <;> cases literal; rfl
    rw [← Option.some.inj same, ih literals, first.constant x isConst]

theorem means_function {f : Function} (plain : f ≠ .random) (means : Means calls J x a)
    (folded : c.calculator.function f x = .ok value)
    (applied : ∀ s, J s → s.calculator.function f x = .ok value) :
    ∃ code, ofFunction c f a = .ok code ∧ Means calls J value code := by
  by_cases literal : ∃ y, a = const y
  · obtain ⟨y, rfl⟩ := literal
    obtain rfl := means.constant y rfl
    exact ⟨const value, by rw [ofFunction, if_neg plain, folded]; rfl, .const value⟩
  · refine ⟨.function f a, by cases a <;> first | rfl | exact absurd ⟨_, rfl⟩ literal, ?_, by simp⟩
    rw [run]
    refine means.yields.bind ?_
    rw [applyFunction_of_ne_random plain]
    exact Yields.read applied

theorem means_operator {o : Operator} (first : Means calls J x a)
    (second : Means calls J y b) (folded : c.calculator.operator o x y = .ok value)
    (applied : ∀ s, J s → s.calculator.operator o x y = .ok value) :
    ∃ code, ofOperator c o a b = .ok code ∧ Means calls J value code := by
  by_cases literal : ∃ u v, a = const u ∧ b = const v
  · obtain ⟨u, v, rfl, rfl⟩ := literal
    obtain rfl := first.constant u rfl
    obtain rfl := second.constant v rfl
    exact ⟨const value, by rw [ofOperator, folded]; rfl, .const value⟩
  · refine ⟨.operator o a b, ?_, ?_, by simp⟩
    · cases a <;> cases b <;> first | rfl | exact absurd ⟨_, _, rfl, rfl⟩ literal
    · rw [run]
      exact first.yields.bind (second.yields.bind (Yields.read applied))

theorem means_binaryFunction {f : BinaryFunction} (first : Means calls J x a)
    (second : Means calls J y b) (folded : c.calculator.binaryFunction f x y = .ok value)
    (applied : ∀ s, J s → s.calculator.binaryFunction f x y = .ok value) :
    ∃ code, ofBinaryFunction c f a b = .ok code ∧ Means calls J value code := by
  by_cases literal : ∃ u v, a = const u ∧ b = const v
  · obtain ⟨u, v, rfl, rfl⟩ := literal
    obtain rfl := first.constant u rfl
    obtain rfl := second.constant v rfl
    exact ⟨const value, by rw [ofBinaryFunction, folded]; rfl, .const value⟩
  · refine ⟨.binaryFunction f a b, ?_, ?_, by simp⟩
    · cases a <;> cases b <;> first | rfl | exact absurd ⟨_, _, rfl, rfl⟩ literal
    · rw [run]
      exact first.yields.bind (second.yields.bind (Yields.read applied))

/-- Only one branch of a conditional is run. -/
theorem means_conditional (condition : Means calls J x a)
    (whenTrue : Means calls J y b) (whenFalse : Means calls J z d) :
    Means calls J (if x.isFalse then z else y) (ofConditional a b d) := by
  by_cases literal : ∃ u, a = const u
  · obtain ⟨u, rfl⟩ := literal
    obtain rfl := condition.constant u rfl
    simp only [ofConditional]
    split <;> assumption
  · have kept : ofConditional a b d = .conditional a b d := by
      cases a <;> first | rfl | exact absurd ⟨_, rfl⟩ literal
    rw [kept]
    refine ⟨?_, by simp⟩
    rw [run]
    refine condition.yields.bind ?_
    split
    · exact whenFalse.yields
    · exact whenTrue.yields

theorem means_multiFunction {f : MultiFunction} {values : List Value} {codes : List Code}
    (means : Forall₂ (Means calls J) values codes)
    (folded : c.calculator.multiFunction f values = .ok value)
    (applied : ∀ s, J s → s.calculator.multiFunction f values = .ok value) :
    ∃ code, ofMultiFunction c f codes = .ok code ∧ Means calls J value code := by
  cases literals : codes.mapM const? with
  | some constants =>
    have same : constants = values := constants_eq means literals
    subst same
    exact ⟨const value, by rw [ofMultiFunction, literals]; simp only [folded]; rfl, .const value⟩
  | none =>
    refine ⟨.multiFunction f codes, by rw [ofMultiFunction, literals], ?_, by simp⟩
    rw [run]
    exact (yields_runAll means).bind (Yields.read applied)

end Code

/-- Two calculators do the same for a token. -/
def Token.Agrees (c d : Calculator Float) (t : Token) : Prop :=
  match t with
  | .negation _ => ∀ x : Value, c.function .negate x = d.function .negate x
  | .factorial => ∀ x : Value, c.function .factorial x = d.function .factorial x
  | .function name => ∀ x : Value, c.function (functionOf name) x = d.function (functionOf name) x
  | .operator symbol _ => ∀ x y : Value,
    c.operator (operatorOf symbol) x y = d.operator (operatorOf symbol) x y
  | .binaryFunction name => ∀ x y : Value,
    c.binaryFunction (binaryFunctionOf name) x y = d.binaryFunction (binaryFunctionOf name) x y
  | .multiFunction name _ => ∀ xs : List Value,
    c.multiFunction (multiFunctionOf name) xs = d.multiFunction (multiFunctionOf name) xs
  | _ => True

/-- What compilation and the sessions of a run have to provide for a token to have its meaning:
the same operations, units that are no plain numbers, codes for names, and the values of calls
and blocks. -/
structure Compilation.Fits (c : Compilation) (m : Meaning) (calls : Calls) (J : Session → Prop)
    (t : Token) : Prop where
  folds : t.Agrees c.calculator m.calculator
  runs : ∀ s, J s → t.Agrees s.calculator m.calculator
  unit : ∀ value name, t = .unit (some value) name → value.collapsed = value
  name : ∀ cell name value, t = .variable cell name → m.name cell name = some value →
    ∃ code, Code.ofVariable c cell name = .ok code ∧ code.Means calls J value
  call : ∀ index name count args value, t = .call (some index) name count →
    m.call index args = some value → Yields J (calls.function index args) value
  block : ∀ index name value, t = .block index name → m.block index = some value →
    Yields J (calls.block index) value

namespace Code

variable {values values' : List Value} {codes : List Code} {t : Token}

/-- The code of a function means the value of the function. -/
theorem means_applied {f : Function} {x value : Value} {a : Code}
    (folds : ∀ x : Value, c.calculator.function f x = m.calculator.function f x)
    (runs : ∀ s, J s → ∀ x : Value, s.calculator.function f x = m.calculator.function f x)
    (means : Means calls J x a) (applied : m.function f x = some value) :
    ∃ code, ofFunction c f a = .ok code ∧ Means calls J value code := by
  obtain ⟨plain, result⟩ := Meaning.function_ok applied
  exact means_function plain means ((folds x).trans result)
    fun s holds => (runs s holds x).trans result

/-- A result and its code are put on the stacks. -/
theorem exists_pushed {made : Except CalcError Code} {result : Option Value} {rest : List Value}
    {others : List Code}
    (means : ∀ x, result = some x → ∃ code, made = .ok code ∧ Means calls J x code)
    (behind : Forall₂ (Means calls J) rest others)
    (pushed : result.map (· :: rest) = some values') :
    ∃ codes', (do return (← made) :: others) = Except.ok codes' ∧
      Forall₂ (Means calls J) values' codes' := by
  obtain ⟨x, same, rfl⟩ := Option.map_eq_some_iff.1 pushed
  obtain ⟨code, compiled, meaning⟩ := means x same
  exact ⟨code :: others, by rw [compiled]; rfl, .cons meaning behind⟩

/-- A token keeps the codes on the stack in step with the values. -/
theorem exists_step (fits : c.Fits m calls J t)
    (means : Forall₂ (Means calls J) values codes)
    (pushed : Postfix.push? m values t = some values') (first : Token) :
    ∃ codes', step c first codes t = .ok codes' ∧ Forall₂ (Means calls J) values' codes' := by
  have runs := fits.runs
  have folds := fits.folds
  have length := means.length_eq
  have taken : ∀ n, Forall₂ (Means calls J) (values.take n).reverse (codes.take n).reverse :=
    fun n => List.forall₂_reverse_iff.2 (List.forall₂_take n means)
  have dropped : ∀ n, Forall₂ (Means calls J) (values.drop n) (codes.drop n) :=
    fun n => List.forall₂_drop n means
  -- The operands of the token are on top of both stacks, or it pushes nothing on the stack of
  -- values. A constant result is folded into the code, whatever the session.
  cases t with
  | constant value | input value =>
    obtain ⟨x, rfl, rfl⟩ := Option.map_eq_some_iff.1 pushed
    exact ⟨_, rfl, .cons (.const x) means⟩
  | unit value name =>
    obtain ⟨x, rfl, rfl⟩ := Option.map_eq_some_iff.1 pushed
    exact ⟨_, rfl, .cons (by rw [fits.unit x name rfl]; exact .const x) means⟩
  | «variable» cell name =>
    exact exists_pushed (fun x found => fits.name cell name x rfl found) means pushed
  | negation | factorial | function =>
    obtain _ | ⟨top, rest⟩ := means
    · cases pushed
    · exact exists_pushed (fun x => means_applied folds runs top) rest pushed
  | operator symbol order =>
    obtain _ | ⟨second, _ | ⟨first, rest⟩⟩ := means
    · cases pushed
    · cases pushed
    · obtain ⟨x, applied, rfl⟩ := Option.map_eq_some_iff.1 pushed
      obtain ⟨other, result⟩ := Meaning.operator_ok applied
      obtain ⟨code, compiled, meaning⟩ := means_operator first second
        ((folds _ _).trans result) fun s holds => (runs s holds _ _).trans result
      refine ⟨code :: _, ?_, .cons meaning rest⟩
      simp only [step, other, Bool.false_eq_true, if_false, compiled]
      rfl
  | binaryFunction name =>
    obtain _ | ⟨second, _ | ⟨first, rest⟩⟩ := means
    · cases pushed
    · cases pushed
    · refine exists_pushed (fun x applied => ?_) rest pushed
      have result := ok_of_toOption applied
      exact means_binaryFunction first second ((folds _ _).trans result)
        fun s holds => (runs s holds _ _).trans result
  | conditional =>
    obtain _ | ⟨whenFalse, _ | ⟨whenTrue, _ | ⟨condition, rest⟩⟩⟩ := means
    · cases pushed
    · cases pushed
    · cases pushed
    · cases pushed
      exact ⟨_, rfl, .cons (means_conditional condition whenTrue whenFalse) rest⟩
  | multiFunction name count =>
    simp only [Postfix.push?] at pushed
    split at pushed
    · next enough =>
      simp only [step, if_pos (length ▸ enough)]
      refine exists_pushed (fun x applied => ?_) (dropped count) pushed
      have result := ok_of_toOption applied
      exact means_multiFunction (taken count) ((folds _).trans result)
        fun s holds => (runs s holds _).trans result
    · cases pushed
  | call index name count =>
    simp only [Postfix.push?] at pushed
    split at pushed
    · next enough =>
      obtain ⟨x, applied, rfl⟩ := Option.map_eq_some_iff.1 pushed
      obtain ⟨i, rfl, called⟩ := Option.bind_eq_some_iff.1 applied
      refine ⟨.call i (codes.take count).reverse :: codes.drop count, ?_,
        .cons ⟨?_, by simp⟩ (dropped count)⟩
      · simp only [step, if_pos (length ▸ enough)]
      · rw [Code.run]
        exact (yields_runAll (taken count)).bind (fits.call i name count _ x rfl called)
    · cases pushed
  | block index name =>
    obtain ⟨x, found, rfl⟩ := Option.map_eq_some_iff.1 pushed
    refine ⟨_, rfl, .cons ⟨?_, by simp⟩ means⟩
    rw [Code.run]
    exact fits.block index name x rfl found
  | blank | openBracket | closeBracket | separator => cases pushed

/-- A part of a program keeps the codes on the stack in step with the values. -/
theorem exists_steps {program : List Token}
    (fits : ∀ t ∈ program, c.Fits m calls J t)
    (means : Forall₂ (Means calls J) values codes)
    (pushed : program.foldlM (Postfix.push? m) values = some values') (first : Token) :
    ∃ codes', program.foldlM (step c first) codes = .ok codes' ∧
      Forall₂ (Means calls J) values' codes' := by
  induction program generalizing values codes with
  | nil =>
    cases pushed
    exact ⟨codes, rfl, means⟩
  | cons t program ih =>
    obtain ⟨between, top, pushed⟩ := Postfix.foldlM_push_cons.1 pushed
    obtain ⟨codes', stepped, means'⟩ :=
      exists_step (fits t List.mem_cons_self) means top first
    obtain ⟨codes'', compiled, means''⟩ :=
      ih (fun u within => fits u (List.mem_cons_of_mem t within)) means' pushed
    exact ⟨codes'', by rw [List.foldlM_cons, stepped]; exact compiled, means''⟩

/-- A program that has a value compiles, and its code means that value. -/
theorem exists_means {program : List Token} {value : Value}
    (fits : ∀ t ∈ program, c.Fits m calls J t)
    (valued : Postfix.value? m program = some value) :
    ∃ code, ofPostfix c program = .ok code ∧ Means calls J value code := by
  obtain ⟨first, rest, rfl⟩ : ∃ first rest, program = first :: rest := by
    cases program with
    | nil => simp [Postfix.value?] at valued
    | cons first rest => exact ⟨first, rest, rfl⟩
  obtain ⟨codes, compiled, means⟩ := exists_steps fits .nil
    (Postfix.value?_eq_some_iff.1 valued) first
  obtain _ | ⟨top, _ | _⟩ := means
  exact ⟨_, by rw [ofPostfix, compiled]; rfl, top⟩

/-! ## Compilation in other sessions -/

section Congruence

variable {c d : Compilation} {t : Token} {program : List Token}

/-- What a step of compilation makes of a token follows from what the calculator does for it and,
for a name, from what the name stands for. Random numbers are not drawn before the run. -/
theorem step_eq_of_agrees
    (agrees : (∀ name, t = .function name → Token.functionOf name ≠ .random) →
      t.Agrees c.calculator d.calculator)
    (named : ∀ cell name, t = .variable cell name →
      ofVariable c cell name = ofVariable d cell name) (first : Token) (stack : List Code) :
    step c first stack t = step d first stack t := by
  have function {f : Function} (same : f ≠ .random →
      ∀ x : Value, c.calculator.function f x = d.calculator.function f x) (a : Code) :
      ofFunction c f a = ofFunction d f a := by
    cases a with
    | const x =>
      simp only [ofFunction]
      split
      · rfl
      · next plain => rw [same plain]
    | _ => rfl
  cases t with
  | «variable» cell name => simp only [step, named cell name rfl]
  | negation =>
    have agrees : ∀ x : Value, _ := agrees fun _ other => by cases other
    simp only [step, function fun _ => agrees]
  | factorial =>
    have agrees : ∀ x : Value, _ := agrees fun _ other => by cases other
    simp only [step, function fun _ => agrees]
  | function name =>
    have agrees (plain : Token.functionOf name ≠ .random) : ∀ x : Value, _ :=
      agrees fun _ same => by cases same; exact plain
    simp only [step, function agrees]
  | operator symbol =>
    have agrees : ∀ x y : Value, _ := agrees fun _ other => by cases other
    have operator (a b : Code) : ofOperator c (Token.operatorOf symbol) a b =
        ofOperator d (Token.operatorOf symbol) a b := by
      simp only [ofOperator, agrees]
    simp only [step, operator]
  | binaryFunction name =>
    have agrees : ∀ x y : Value, _ := agrees fun _ other => by cases other
    simp only [step, ofBinaryFunction, agrees]
  | multiFunction name =>
    have agrees : ∀ xs : List Value, _ := agrees fun _ other => by cases other
    simp only [step, ofMultiFunction, agrees]
  | call index => cases index <;> rfl
  | unit value => cases value <;> rfl
  | input value => cases value <;> rfl
  | constant | conditional | block | blank | openBracket | closeBracket | separator => rfl

/-- Compilations that make the same of every token make the same of a program. -/
theorem ofPostfix_eq_of_steps
    (same : ∀ t ∈ program, ∀ first stack, step c first stack t = step d first stack t) :
    ofPostfix c program = ofPostfix d program := by
  have steps : ∀ first stack,
      program.foldlM (step c first) stack = program.foldlM (step d first) stack := by
    intro first
    induction program with
    | nil => exact fun _ => rfl
    | cons t program ih =>
      rw [List.forall_mem_cons] at same
      intro stack
      rw [List.foldlM_cons, List.foldlM_cons, same.1]
      congr 1
      funext between
      exact ih same.2 between
  cases program with
  | nil => rfl
  | cons first rest => simp only [ofPostfix, steps first]

end Congruence

end Code

end UnitCalc
