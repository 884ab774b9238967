/-
# Calls by substitution

What a custom function means without code and kept results: its body, with the arguments for
the parameters, the values that variables have now, and the functions that are defined now. A
circular function is undefined. Functions that do not lead to anything that changed have the
same values as before.

## Main definitions

* `Session.substituted` is the value of a call, up to a depth of nested calls.
* `Session.AgreeOn`: two sessions agree on some functions and on what these read.

## Main results

* `Session.AgreeOn.substituted_eq`: calls of these functions have the same values.
-/

import UnitCalc.Proofs.Session.NumericCode
import UnitCalc.Session.FunctionCall

namespace UnitCalc

/-- A function without what it kept from earlier calls. -/
def UserFunction.bare (f : UserFunction) : UserFunction :=
  { f with code := none, results := [], hits := 0, misses := 0 }

/-- A function as it was defined, without what depends on it either. -/
def UserFunction.definition (f : UserFunction) : UserFunction :=
  { f.bare with dependents := [] }

/-- Functions that were defined in the same way. -/
theorem UserFunction.eq_of_definition {f g : UserFunction} (same : f.definition = g.definition) :
    f.parameters = g.parameters ∧ f.body = g.body ∧ f.unit = g.unit ∧
      f.isCircular = g.isCircular := by
  simp only [definition, bare, mk.injEq] at same
  exact ⟨same.2.1, same.2.2.1, same.2.2.2.1, same.2.2.2.2.1⟩

namespace Session

variable {s s' : Session} {U : Nat → Prop}

/-- What the names and calls of a body mean: a parameter is its argument, and any other name
is a variable. -/
def bodyMeaning (s : Session) (f : UserFunction) (args : List Value)
    (call : Nat → List Value → Option Value) : Meaning where
  calculator := s.calculator
  name cell name :=
    if (f.parameters.lookup name).isSome then ((f.parameters.map Prod.fst).zip args).lookup name
    else cell.bind s.assigned?
  call := call
  block _ := none

/-- The value of a call by substitution, for calls that are nested at most so deep. -/
def substituted (s : Session) : Nat → Nat → List Value → Option Value
  | 0, _, _ => none
  | depth + 1, index, args =>
    s.functions[index]?.bind fun f =>
      if f.isCircular then some .undefined
      else if args.length = f.arity then
        Postfix.value? (s.bodyMeaning f args (s.substituted depth)) f.body
      else none

/-- The body of a function that is not circular calls another function. -/
def Leads (s : Session) (i j : Nat) : Prop :=
  ∃ f, s.functions[i]? = some f ∧ f.isCircular = false ∧
    ∃ name count, .call (some j) name count ∈ f.body

/-- The bodies of functions are numeric. -/
def HasNumericBodies (s : Session) : Prop :=
  ∀ (i : Nat) f, s.functions[i]? = some f → ∀ t ∈ f.body, t.isNumeric = true

/-- Two sessions have the same definitions of the functions in `U`, these read the same values,
and call functions in `U` only. -/
structure AgreeOn (s s' : Session) (U : Nat → Prop) : Prop where
  settings : s.settings = s'.settings
  definition : ∀ i, U i → s.functions[i]?.map UserFunction.definition =
    s'.functions[i]?.map UserFunction.definition
  value : ∀ (i : Nat) f, U i → s.functions[i]? = some f → f.isCircular = false →
    ∀ id name, .variable (some id) name ∈ f.body → f.parameters.lookup name = none →
      s.assigned? id = s'.assigned? id
  callee : ∀ i j, U i → s.Leads i j → U j

theorem AgreeOn.function (agree : s.AgreeOn s' U) {i : Nat} (inside : U i) :
    (s.functions[i]? = none ∧ s'.functions[i]? = none) ∨
      ∃ f g, s.functions[i]? = some f ∧ s'.functions[i]? = some g ∧
        f.definition = g.definition := by
  have same := agree.definition i inside
  cases found : s.functions[i]? with
  | none =>
    rw [found, Option.map_none] at same
    exact .inl ⟨rfl, Option.map_eq_none_iff.1 same.symm⟩
  | some f =>
    rw [found, Option.map_some] at same
    obtain ⟨g, found', same⟩ := Option.map_eq_some_iff.1 same.symm
    exact .inr ⟨f, g, rfl, found', same.symm⟩

/-- Calls of functions on which two sessions agree have the same values in both. -/
theorem AgreeOn.substituted_eq (agree : s.AgreeOn s' U) (numeric : s.HasNumericBodies)
    (depth : Nat) {i : Nat} (inside : U i) (args : List Value) :
    s.substituted depth i args = s'.substituted depth i args := by
  induction depth generalizing i args with
  | zero => rfl
  | succ depth ih =>
    rw [substituted, substituted]
    rcases agree.function inside with ⟨found, found'⟩ | ⟨f, g, found, found', same⟩
    · rw [found, found', Option.bind_none, Option.bind_none]
    · obtain ⟨parameters, body, -, circular⟩ := UserFunction.eq_of_definition same
      rw [found, found', Option.bind_some, Option.bind_some]
      have arity : f.arity = g.arity := congrArg List.length parameters
      rw [← circular, ← arity, ← body]
      by_cases closed : f.isCircular = true
      · rw [if_pos closed, if_pos closed]
      by_cases enough : args.length = f.arity
      · rw [if_neg closed, if_neg closed, if_pos enough, if_pos enough]
        rw [Bool.not_eq_true] at closed
        -- the body reads the same values, and calls functions with the same values
        refine Postfix.value?_congr ?_ (numeric i f found) fun t within =>
          ⟨fun cell name token => ?_, fun j name count token => ?_⟩
        · exact calculator_alike agree.settings
        · simp only [bodyMeaning, ← parameters]
          split
          · rfl
          · next free =>
            cases cell with
            | none => rfl
            | some id =>
              exact agree.value i f inside found closed id name (token ▸ within)
                (Option.not_isSome_iff_eq_none.1 free)
        · have leads : s.Leads i j := ⟨f, found, closed, name, count, token ▸ within⟩
          funext args'
          exact ih (agree.callee i j inside leads) args'
      · rw [if_neg closed, if_neg closed, if_neg enough, if_neg enough]

end Session

end UnitCalc
