/-
# Numeric programs

A numeric program has no units, no blocks and no assignments, its names are no units, and of
the built-in functions it uses neither random numbers nor those that return angles. Its values
are plain numbers, and they depend on a session only through the mode, the angle unit,
variables and calls.

## Main definitions

* `Token.isNumeric`: what a numeric program consists of.
* `Meaning.IsPlain`: names are plain numbers, and calls of plain numbers have plain values.

## Main results

* `Postfix.isPlain_of_value?`, `Postfix.value?_congr`: values of numeric programs.
-/

import UnitCalc.Proofs.Calculator.Plain
import UnitCalc.Proofs.Postfix.Compilation

namespace UnitCalc

open SessionM

/-- The value is a plain number. -/
def Quantity.isPlain (q : Value) : Bool :=
  q.unit.isNone && !q.isLiteral

theorem Quantity.isPlain_iff {q : Value} : q.isPlain = true ↔ q.IsPlain := by
  simp only [isPlain, Bool.and_eq_true, Option.isNone_iff_eq_none, Bool.not_eq_true']
  exact ⟨fun ⟨unit, literal⟩ => ⟨unit, literal⟩, fun plain => ⟨plain.unit, plain.isLiteral⟩⟩

/-- No unit has this name. -/
def noUnit (name : String) : Bool :=
  (Catalogue.find? name : Option ValueUnit).isNone

/-- A token that a numeric program may contain. Brackets have no value, so they do no harm. -/
def Token.isNumeric : Token → Bool
  | .constant value _ => value.all Quantity.isPlain
  | .variable _ name => noUnit name
  | .unit _ _ | .input _ | .block _ _ => false
  | .operator symbol _ => symbol != '='
  | .function name => functionOf name != .random && !(functionOf name).returnsAngle
  | .binaryFunction name => !(binaryFunctionOf name).returnsAngle
  | _ => true

variable {t : Token} {m m' : Meaning} {c d : Compilation}

/-- Calculators that are alike do the same for a numeric token. -/
theorem Token.agrees_of_alike {c d : Calculator Float} (alike : c.Alike d)
    (numeric : t.isNumeric = true) : t.Agrees c d := by
  cases t with
  | negation => exact alike.function (by decide) rfl
  | factorial => exact alike.function (by decide) rfl
  | function name =>
    simp only [isNumeric, Bool.and_eq_true, bne_iff_ne, Bool.not_eq_true'] at numeric
    exact alike.function numeric.1 numeric.2
  | operator symbol => exact alike.operator _
  | binaryFunction name =>
    simp only [isNumeric, Bool.not_eq_true'] at numeric
    exact alike.binaryFunction numeric
  | multiFunction name => exact alike.multiFunction _
  | _ => trivial

namespace Meaning

/-- Calls of plain numbers only. -/
def onPlain (m : Meaning) : Meaning :=
  { m with call := fun index args => if args.all Quantity.isPlain then m.call index args else none }

/-- Names are plain numbers, and calls of plain numbers have plain values. -/
structure IsPlain (m : Meaning) : Prop where
  name : ∀ cell name x, m.name cell name = some x → x.IsPlain
  call : ∀ index args x, (∀ a ∈ args, a.IsPlain) → m.call index args = some x → x.IsPlain

/-- Two meanings give the name or the call of a token the same value. -/
structure Matches (m m' : Meaning) (t : Token) : Prop where
  name : ∀ cell name, t = .variable cell name → m.name cell name = m'.name cell name
  call : ∀ index name count, t = .call (some index) name count → m.call index = m'.call index

end Meaning

namespace Postfix

variable {stack stack' : List Value} {program : List Token} {value : Value}

/-- A plain result is put on a stack of plain numbers. -/
theorem isPlain_pushed {result : Option Value} (plain : ∀ x, result = some x → x.IsPlain)
    (values : ∀ a ∈ stack, a.IsPlain) (pushed : result.map (· :: stack) = some stack') :
    ∀ a ∈ stack', a.IsPlain := by
  obtain ⟨x, same, rfl⟩ := Option.map_eq_some_iff.1 pushed
  exact List.forall_mem_cons.2 ⟨plain x same, values⟩

theorem isPlain_applied {f : Function} {a : Value} (noAngle : f.returnsAngle = false)
    (values : ∀ x ∈ a :: stack, x.IsPlain)
    (pushed : (m.function f a).map (· :: stack) = some stack') : ∀ x ∈ stack', x.IsPlain := by
  rw [List.forall_mem_cons] at values
  refine isPlain_pushed (fun x applied => ?_) values.2 pushed
  exact Calculator.isPlain_function noAngle values.1 (Meaning.function_ok applied).2

/-- A numeric token puts a plain number on the stack. -/
theorem isPlain_of_push? (plain : m.IsPlain) (numeric : t.isNumeric = true)
    (values : ∀ a ∈ stack, a.IsPlain) (pushed : push? m stack t = some stack') :
    ∀ a ∈ stack', a.IsPlain := by
  have taken : ∀ n, ∀ a ∈ (stack.take n).reverse, a.IsPlain := fun n a within =>
    values a (List.mem_of_mem_take (List.mem_reverse.1 within))
  have dropped : ∀ n, ∀ a ∈ stack.drop n, a.IsPlain := fun n a within =>
    values a (List.mem_of_mem_drop within)
  -- Operands are on the stack, so they are plain; only names and calls bring in new values.
  cases t with
  | constant value text =>
    refine isPlain_pushed (fun x same => ?_) values pushed
    subst same
    exact Quantity.isPlain_iff.1 numeric
  | «variable» cell name => exact isPlain_pushed (plain.name cell name) values pushed
  | unit | input | block => cases numeric
  | negation =>
    obtain _ | ⟨a, rest⟩ := stack
    · cases pushed
    · exact isPlain_applied (f := .negate) rfl values pushed
  | factorial =>
    obtain _ | ⟨a, rest⟩ := stack
    · cases pushed
    · exact isPlain_applied (f := .factorial) rfl values pushed
  | function name =>
    simp only [Token.isNumeric, Bool.and_eq_true, Bool.not_eq_true'] at numeric
    obtain _ | ⟨a, rest⟩ := stack
    · cases pushed
    · exact isPlain_applied numeric.2 values pushed
  | operator symbol =>
    obtain _ | ⟨b, _ | ⟨a, rest⟩⟩ := stack
    · cases pushed
    · cases pushed
    · rw [List.forall_mem_cons, List.forall_mem_cons] at values
      refine isPlain_pushed (fun x applied => ?_) values.2.2 pushed
      exact Calculator.isPlain_operator values.2.1 values.1 (Meaning.operator_ok applied).2
  | binaryFunction name =>
    simp only [Token.isNumeric, Bool.not_eq_true'] at numeric
    obtain _ | ⟨b, _ | ⟨a, rest⟩⟩ := stack
    · cases pushed
    · cases pushed
    · rw [List.forall_mem_cons, List.forall_mem_cons] at values
      refine isPlain_pushed (fun x applied => ?_) values.2.2 pushed
      exact Calculator.isPlain_binaryFunction numeric values.2.1 (ok_of_toOption applied)
  | conditional =>
    obtain _ | ⟨whenFalse, _ | ⟨whenTrue, _ | ⟨condition, rest⟩⟩⟩ := stack
    · cases pushed
    · cases pushed
    · cases pushed
    · cases pushed
      rw [List.forall_mem_cons, List.forall_mem_cons, List.forall_mem_cons] at values
      refine List.forall_mem_cons.2 ⟨?_, values.2.2.2⟩
      split
      · exact values.1
      · exact values.2.1
  | multiFunction name count =>
    simp only [push?] at pushed
    split at pushed
    · refine isPlain_pushed (fun x applied => ?_) (dropped count) pushed
      exact Calculator.isPlain_multiFunction (taken count) (ok_of_toOption applied)
    · cases pushed
  | call index name count =>
    simp only [push?] at pushed
    split at pushed
    · refine isPlain_pushed (fun x applied => ?_) (dropped count) pushed
      obtain ⟨i, rfl, called⟩ := Option.bind_eq_some_iff.1 applied
      exact plain.call i _ x (taken count) called
    · cases pushed
  | blank | openBracket | closeBracket | separator => cases pushed

/-- On a stack of plain numbers, calls of other numbers do not matter. -/
theorem push?_onPlain (values : ∀ a ∈ stack, a.IsPlain) :
    push? m.onPlain stack t = push? m stack t := by
  cases t with
  | call index name count =>
    have plain : (stack.take count).reverse.all Quantity.isPlain = true := by
      rw [List.all_eq_true]
      exact fun a within => Quantity.isPlain_iff.2
        (values a (List.mem_of_mem_take (List.mem_reverse.1 within)))
    simp only [push?, Meaning.onPlain, plain, if_true]
  | _ => rfl

theorem foldlM_onPlain (plain : m.IsPlain) (numeric : ∀ t ∈ program, t.isNumeric = true)
    (values : ∀ a ∈ stack, a.IsPlain) :
    program.foldlM (push? m.onPlain) stack = program.foldlM (push? m) stack ∧
      ∀ final, program.foldlM (push? m) stack = some final → ∀ a ∈ final, a.IsPlain := by
  induction program generalizing stack with
  | nil =>
    refine ⟨rfl, fun final same => ?_⟩
    cases same
    exact values
  | cons t program ih =>
    rw [List.forall_mem_cons] at numeric
    rw [List.foldlM_cons, List.foldlM_cons, push?_onPlain values]
    cases pushed : push? m stack t with
    | none => exact ⟨rfl, nofun⟩
    | some between => exact ih numeric.2 (isPlain_of_push? plain numeric.1 values pushed)

/-- A numeric program has the same value when only plain numbers may be arguments. -/
theorem value?_onPlain (plain : m.IsPlain) (numeric : ∀ t ∈ program, t.isNumeric = true) :
    value? m.onPlain program = value? m program := by
  unfold value?
  rw [(foldlM_onPlain plain numeric (List.forall_mem_nil _)).1]

/-- The value of a numeric program is a plain number. -/
theorem isPlain_of_value? (plain : m.IsPlain) (numeric : ∀ t ∈ program, t.isNumeric = true)
    (valued : value? m program = some value) : value.IsPlain :=
  (foldlM_onPlain plain numeric (List.forall_mem_nil _)).2 _ (value?_eq_some_iff.1 valued) value
    List.mem_cons_self

/-- What a numeric token does depends on its name or its call. -/
theorem push?_congr (alike : m.calculator.Alike m'.calculator) (numeric : t.isNumeric = true)
    (same : m.Matches m' t) : push? m stack t = push? m' stack t := by
  have function : ∀ {f : Function}, f ≠ .random → f.returnsAngle = false → ∀ a : Value,
      m.function f a = m'.function f a := by
    intro f plain noAngle a
    simp only [Meaning.function, alike.function plain noAngle]
  cases t with
  | unit | input | block => cases numeric
  | «variable» cell name => simp only [push?, same.name cell name rfl]
  | negation => simp only [push?, function (f := Function.negate) (by decide) rfl]
  | factorial => simp only [push?, function (f := .factorial) (by decide) rfl]
  | function name =>
    simp only [Token.isNumeric, Bool.and_eq_true, bne_iff_ne, Bool.not_eq_true'] at numeric
    simp only [push?, function numeric.1 numeric.2]
  | operator symbol => simp only [push?, Meaning.operator, alike.operator]
  | binaryFunction name =>
    simp only [Token.isNumeric, Bool.not_eq_true'] at numeric
    simp only [push?, Meaning.binaryFunction, alike.binaryFunction numeric]
  | multiFunction name => simp only [push?, Meaning.multiFunction, alike.multiFunction]
  | call index name count =>
    cases index with
    | none => rfl
    | some i => simp only [push?, Option.bind_some, same.call i name count rfl]
  | constant | conditional | blank | openBracket | closeBracket | separator => rfl

/-- The value of a numeric program depends on its names and its calls. -/
theorem value?_congr (alike : m.calculator.Alike m'.calculator)
    (numeric : ∀ t ∈ program, t.isNumeric = true) (same : ∀ t ∈ program, m.Matches m' t) :
    value? m program = value? m' program := by
  have steps : ∀ stack, program.foldlM (push? m) stack = program.foldlM (push? m') stack := by
    induction program with
    | nil => exact fun _ => rfl
    | cons t program ih =>
      rw [List.forall_mem_cons] at numeric same
      intro stack
      rw [List.foldlM_cons, List.foldlM_cons, push?_congr alike numeric.1 same.1]
      congr 1
      funext between
      exact ih numeric.2 same.2 between
  simp only [value?, steps]

end Postfix

end UnitCalc
