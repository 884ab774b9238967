/-
# Keys of arguments

Functions of one or two parameters keep their results by the keys of the arguments. The key of a
value has its number, bit by bit, and the text of its unit. It leaves out whether the value is a
unit itself, and what the text of the unit stands for. Where these do not differ, values with the
same key are the same, so a result that is kept is what a call has that is evaluated afresh.

## Main definitions

* `ToldByKeys`: values that differ in their keys if they differ at all.

## Main results

* `ToldByKeys.eq_of_keys`: arguments with the same keys are the same.
* `Session.call_again`: a call with the keys of an earlier one.
-/

import UnitCalc.Proofs.Session.Afresh

namespace UnitCalc

open SessionM

/-- Values that their keys tell apart: all of them are units themselves or none is, and units with
the same text are the same. -/
structure ToldByKeys (values : List Value) : Prop where
  literal : ∀ a ∈ values, ∀ b ∈ values, a.isLiteral = b.isLiteral
  unit : ∀ a ∈ values, ∀ b ∈ values,
    a.unit.map MeasureUnit.text = b.unit.map MeasureUnit.text → a.unit = b.unit

namespace ToldByKeys

theorem eq_of_key {values : List Value} (told : ToldByKeys values) {a b : Value}
    (first : a ∈ values) (second : b ∈ values)
    (same : ArgumentKey.ofValue a = ArgumentKey.ofValue b) : a = b := by
  obtain ⟨num, text⟩ := ArgumentKey.ofValue_eq_iff.1 same
  have unit := told.unit a first b second text
  have literal := told.literal a first b second
  obtain ⟨x, u, flag⟩ := a
  obtain ⟨y, v, flag'⟩ := b
  cases num
  cases unit
  cases literal
  rfl

/-- Arguments with the same keys are the same. -/
theorem eq_of_keys {args args' : List Value} (told : ToldByKeys (args ++ args'))
    (same : args.map ArgumentKey.ofValue = args'.map ArgumentKey.ofValue) : args = args' := by
  have length : args.length = args'.length := by
    rw [← List.length_map ArgumentKey.ofValue, same, List.length_map]
  refine List.ext_getElem length fun i first second => ?_
  refine told.eq_of_key (List.mem_append_left _ (List.getElem_mem first))
    (List.mem_append_right _ (List.getElem_mem second)) ?_
  have keys : (args.map ArgumentKey.ofValue)[i]? = (args'.map ArgumentKey.ofValue)[i]? := by
    rw [same]
  simpa [List.getElem?_eq_getElem, first, second] using keys

end ToldByKeys

theorem UserFunction.result?_keep {f : UserFunction} (few : f.keepsResults = true)
    (args : List Value) (result : Value) : (f.keep args result).result? args = some result := by
  have limited : f.limited.keepsResults = f.keepsResults := by
    unfold limited
    split <;> rfl
  unfold keep
  dsimp only
  rw [if_pos (limited.trans few), result?]
  rw [if_pos]
  · exact List.lookup_cons_self
  · exact limited.trans few

namespace Session

variable {s s' : Session} {i : Nat} {f : UserFunction} {args args' : List Value} {v : Value}

theorem evolves_function (s : Session) (i : Nat) (args : List Value) :
    s.Evolves (outcome (s.calls.function i args) s).2 :=
  ((Calls.match_ofDepth s.through_evolves (fun e _ => s.confined_all e.dependent) _).function i args
    trivial s .refl).2.1

/-- A call that has a value keeps it. -/
theorem result_kept (found : s.functions[i]? = some f) (closed : f.isCircular = false)
    (going : s.isCancelled = false) (few : f.keepsResults = true)
    (ended : outcome (s.calls.function i args) s = (.ok v, s')) :
    args.length = f.arity ∧ ∃ g, s'.functions[i]? = some g ∧ g.isCircular = false ∧
      g.arity = f.arity ∧ g.result? args = some v := by
  have evolves := s.evolves_function i args
  have definitions := evolves.runsTo.definitionOf_eq i
  have called : s.calls.function i args =
      evaluateCall (.ofDepth (s.functions.size + s.blocks.size)) i args := rfl
  rw [ended] at definitions
  rw [definitionOf, definitionOf, found, Option.map_some] at definitions
  obtain ⟨g, found', definition⟩ := Option.map_eq_some_iff.1 definitions
  obtain ⟨parameters, -, -, circular⟩ := UserFunction.eq_of_definition definition
  have arity : g.arity = f.arity := congrArg List.length parameters
  have few' : g.keepsResults = true := by
    rw [UserFunction.keepsResults, arity]
    exact few
  have enough : args.length = f.arity := by
    by_contra other
    rw [called] at ended
    unfold evaluateCall at ended
    rw [outcome_bind_ok (outcome_get s)] at ended
    simp only [found, closed, Bool.false_eq_true, if_false] at ended
    rw [outcome_bind_ok (outcome_checkCancelled going)] at ended
    rw [if_pos other] at ended
    cases ended
  refine ⟨enough, g, found', circular.trans closed, arity, ?_⟩
  cases kept : f.result? args with
  | some x =>
    rw [called, outcome_evaluateCall_of_kept found closed going enough kept] at ended
    cases ended
    rw [modifyFunction, Array.getElem?_modify, if_pos rfl, found] at found'
    cases found'
    exact kept
  | none =>
    rw [called, outcome_evaluateCall_of_missed found closed going enough kept] at ended
    obtain ⟨code, s₁, -, ended⟩ := exists_of_bind_ok ended
    obtain ⟨value, s₂, -, ended⟩ := exists_of_bind_ok ended
    obtain ⟨result, s₃, -, ended⟩ := exists_of_bind_ok ended
    rw [outcome_bind_ok (outcome_modify _ s₃)] at ended
    cases ended
    rw [modifyFunction, Array.getElem?_modify, if_pos rfl] at found'
    obtain ⟨h, -, rfl⟩ := Option.map_eq_some_iff.1 found'
    refine UserFunction.result?_keep ?_ args v
    have bare := congrArg UserFunction.keepsResults (h.bare_keep args v)
    exact bare.symm.trans few'

/-- A call whose arguments have the keys of an earlier call is answered by the value that was kept.
When the keys tell the arguments apart, this is the value that the call has in the session of the
earlier one, also when it is evaluated afresh there. -/
theorem call_again (found : s.functions[i]? = some f) (closed : f.isCircular = false)
    (going : s.isCancelled = false) (few : f.keepsResults = true)
    (told : ToldByKeys (args ++ args'))
    (same : args.map ArgumentKey.ofValue = args'.map ArgumentKey.ofValue)
    (ended : outcome (s.calls.function i args) s = (.ok v, s')) (going' : s'.isCancelled = false) :
    outcome (s'.calls.function i args') s' =
        (.ok v, s'.modifyFunction i fun f => { f with hits := f.hits + 1 }) ∧
      outcome (s.calls.function i args') s = (.ok v, s') ∧
      (s.CallsAfresh i →
        outcome (callAfresh (.ofDepth (s.functions.size + s.blocks.size)) i f args') s =
          (.ok v, s')) := by
  obtain ⟨enough, g, found', closed', arity, kept⟩ := result_kept found closed going few ended
  cases told.eq_of_keys same
  refine ⟨?_, ended, fun afresh => ?_⟩
  · exact outcome_evaluateCall_of_kept found' closed' going' (enough.trans arity.symm) kept
  · rw [← afresh f args found closed going enough]
    exact ended

/-- A product that is asked for twice. -/
theorem call_again_double : ∃ (s s' : Session) (v : Value), s.Occurs ∧
    outcome (s.calls.function 0 [.real 3]) s = (.ok v, s') ∧ (v.re == 6) = true ∧
      outcome (s'.calls.function 0 [.real 3]) s' =
        (.ok v, s'.modifyFunction 0 fun f => { f with hits := f.hits + 1 }) := by
  let s := (start {} ⟨1, 1⟩).after (.read "f(x) = 2*x")
  have defined : (s.functions[0]?.any fun f => !f.isCircular && f.keepsResults) = true := by
    decide +kernel
  have going : s.isCancelled = false := by decide +kernel
  have six : ((outcome (s.calls.function 0 [.real 3]) s).1.toOption.any fun v => v.re == 6) =
      true := by decide +kernel
  have going' : (outcome (s.calls.function 0 [.real 3]) s).2.isCancelled = false := by
    decide +kernel
  obtain ⟨f, found, closed⟩ := (Option.any_eq_true _ _).1 defined
  obtain ⟨closed, few⟩ := Bool.and_eq_true_iff.1 closed
  obtain ⟨v, value, six⟩ := (Option.any_eq_true _ _).1 six
  have ended : outcome (s.calls.function 0 [.real 3]) s =
      (.ok v, (outcome (s.calls.function 0 [.real 3]) s).2) := Prod.ext (ok_of_toOption value) rfl
  have told : ToldByKeys ([.real 3] ++ [.real 3]) := by
    refine ⟨fun a first b second => ?_, fun a first b second _ => ?_⟩
    all_goals
      simp only [List.cons_append, List.nil_append, List.mem_cons, List.not_mem_nil, or_false,
        or_self] at first second
      rw [first, second]
  exact ⟨s, _, v, .request _ (.start _ _), ended, six,
    (call_again found (by simpa using closed) going few told rfl ended going').1⟩

end Session

end UnitCalc
