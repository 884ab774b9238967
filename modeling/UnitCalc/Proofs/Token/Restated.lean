/-
# Restated tokens

Checking a list stores the number of arguments in calls, and binding it orders operators. Apart
from that, and from names of units, the tokens stay as they were read.

## Main definitions

* `Token.Restates`: a token that may differ in an order or in a number of arguments.

## Main results

* `Token.check_restates`, `Token.bind_restates`: what happens to a list of tokens.
* `Token.countP_isAssignment_le`: a definition has one assignment.
* `Token.not_call_of_check`, `Token.head?_of_check`: a definition does not call itself, and other
  statements do not begin with a call of something that is not defined.
-/

import UnitCalc.Proofs.Token.Binding
import UnitCalc.Proofs.Token.Legality

namespace UnitCalc

namespace Token

open List (Forall₂)

/-- A token in place of another one: operators may bind differently, and a number of arguments
may be filled in. -/
def Restates (u : Token) : Token → Prop
  | operator symbol _ => ∃ order, u = operator symbol order
  | negation _ => ∃ order, u = negation order
  | multiFunction name _ => ∃ count, u = multiFunction name count
  | t => u = t

theorem Restates.refl (t : Token) : Restates t t := by
  cases t <;> simp [Restates]

theorem Restates.trans {t u v : Token} (first : Restates t u) (second : Restates u v) :
    Restates t v := by
  cases v with
  | operator | negation | multiFunction =>
    obtain ⟨x, rfl⟩ := second
    exact first
  | _ =>
    cases second
    exact first

/-- A property that does not look at orders and numbers of arguments. -/
theorem Restates.isAssignment_eq {t u : Token} (restates : Restates u t) :
    u.isAssignment = t.isAssignment := by
  cases t with
  | operator | negation | multiFunction =>
    obtain ⟨x, rfl⟩ := restates
    rfl
  | _ =>
    cases restates
    rfl

theorem Restates.blockIndex?_eq {t u : Token} (restates : Restates u t) :
    u.blockIndex? = t.blockIndex? := by
  cases t with
  | operator | negation | multiFunction =>
    obtain ⟨x, rfl⟩ := restates
    rfl
  | _ =>
    cases restates
    rfl

theorem Restates.classAfter_eq {t u : Token} (restates : Restates u t) :
    u.classAfter = t.classAfter := by
  cases t with
  | operator | negation | multiFunction =>
    obtain ⟨x, rfl⟩ := restates
    rfl
  | _ =>
    cases restates
    rfl

/-- A call is not restated. -/
theorem Restates.eq_call {t : Token} {index : Option Nat} {name : String} {count : Nat}
    (restates : Restates (.call index name count) t) : t = .call index name count := by
  cases t with
  | operator | negation | multiFunction =>
    obtain ⟨x, same⟩ := restates
    cases same
  | _ => exact restates.symm

theorem countP_isAssignment_eq {us ts : List Token} (restated : Forall₂ Restates us ts) :
    us.countP isAssignment = ts.countP isAssignment := by
  induction restated with
  | nil => rfl
  | cons restates _ ih => rw [List.countP_cons, List.countP_cons, ih, restates.isAssignment_eq]

theorem restates_of_setCount {t u : Token} {count count' : Nat}
    (same : Legality.setCount count u = Legality.setCount count' t) : Restates u t := by
  cases t <;> cases u <;> simp_all [Legality.setCount, Restates]

end Token

namespace Legality

variable {header : Option String} {previous : Option Token} {t : Token} {s s' final : State}
  {ts us tokens checked : List Token}

/-- A list without the numbers of arguments in its calls. -/
def uncounted (ts : List Token) : List Token :=
  ts.map (setCount 0)

theorem uncounted_modify (ts : List Token) (place count : Nat) :
    uncounted (ts.modify place (setCount count)) = uncounted ts := by
  induction ts generalizing place with
  | nil => simp [uncounted]
  | cons t ts ih =>
    cases place with
    | zero => cases t <;> rfl
    | succ place => exact congrArg (setCount 0 t :: ·) (ih place)

theorem advance_uncounted (advanced : advance header previous t s = .ok s') :
    uncounted s'.checked.toList = uncounted s.checked.toList := by
  cases t with
  | closeBracket =>
    simp only [advance, closeBracket] at advanced
    repeat' split at advanced
    all_goals cases advanced
    · simp only [Array.toList_modify]
      exact uncounted_modify _ _ _
    · rfl
    · rfl
  | operator symbol order =>
    simp only [advance, assignment] at advanced
    repeat' split at advanced
    all_goals cases advanced <;> rfl
  | call index name count =>
    simp only [advance, call] at advanced
    repeat' split at advanced
    all_goals cases advanced <;> rfl
  | _ => cases advanced; rfl

/-- The check changes nothing but the numbers of arguments. -/
theorem run_uncounted (ran : run header previous ts s = .ok final) :
    uncounted final.checked.toList = uncounted (s.checked.toList ++ ts) := by
  induction ts generalizing previous s with
  | nil =>
    cases ran
    simp
  | cons t ts ih =>
    obtain ⟨s', stepped, ran⟩ := run_cons ran
    obtain ⟨-, a, advanced, rfl⟩ := step_ok stepped
    rw [ih ran]
    simpa [uncounted] using advance_uncounted advanced

theorem eq_of_finish {isDefinition : Bool} (finished : finish tokens s = .ok (checked, isDefinition)) :
    checked = s.checked.toList ∧ isDefinition = s.isDefinition := by
  unfold finish at finished
  repeat' split at finished
  all_goals simp at finished
  exact ⟨finished.1.symm, finished.2.symm⟩

/-- A list without assignments defines nothing. -/
theorem run_keeps_expression (ordinary : ∀ t ∈ us, t.isAssignment = false)
    (expression : s.isDefinition = false) (ran : run header previous us s = .ok final) :
    final.isDefinition = false := by
  induction us generalizing previous s with
  | nil =>
    cases ran
    exact expression
  | cons t us ih =>
    rw [List.forall_mem_cons] at ordinary
    obtain ⟨s', stepped, ran⟩ := run_cons ran
    exact ih ordinary.2 (step_keeps_expression ordinary.1 stepped expression) ran

/-- Behind the header of a definition there is no assignment. -/
theorem step_inDefinition (inside : s.isDefinition = true ∧ s.seenOperator = true)
    (stepped : step header previous t s = .ok s') :
    t.isAssignment = false ∧ s'.isDefinition = true ∧ s'.seenOperator = true := by
  obtain ⟨-, a, advanced, rfl⟩ := step_ok stepped
  cases t with
  | closeBracket =>
    simp only [advance, closeBracket] at advanced
    repeat' split at advanced
    all_goals cases advanced <;> exact ⟨rfl, inside⟩
  | operator symbol order =>
    simp only [advance, assignment] at advanced
    split at advanced
    · -- an operator was seen, so the assignment is not the first one
      rw [inside.1, inside.2] at advanced
      simp only [Bool.not_true, Bool.and_false, Bool.false_eq_true, if_false, if_true] at advanced
      split at advanced <;> cases advanced
    · next other =>
      cases advanced
      exact ⟨Bool.not_eq_true _ ▸ other, inside.1, rfl⟩
  | negation =>
    cases advanced
    exact ⟨rfl, inside.1, rfl⟩
  | call index name count =>
    simp only [advance, call] at advanced
    repeat' split at advanced
    all_goals cases advanced <;> exact ⟨rfl, inside⟩
  | _ =>
    cases advanced
    exact ⟨rfl, inside⟩

theorem step_header {name : String} (expression : s.isDefinition = false)
    (stepped : step (some name) previous t s = .ok s') (assigns : t.isAssignment = true) :
    s'.isDefinition = true ∧ s'.seenOperator = true := by
  obtain ⟨-, a, advanced, rfl⟩ := step_ok stepped
  cases t with
  | operator symbol order =>
    have same : (symbol == '=') = true := assigns
    simp only [advance, assignment, same, expression, Option.isSome_some, Bool.not_false,
      Bool.and_self, if_true] at advanced
    cases advanced
    exact ⟨rfl, rfl⟩
  | _ => cases assigns

theorem run_inDefinition (inside : s.isDefinition = true ∧ s.seenOperator = true)
    (ran : run header previous us s = .ok final) : us.countP Token.isAssignment = 0 := by
  induction us generalizing previous s with
  | nil => rfl
  | cons t us ih =>
    obtain ⟨s', stepped, ran⟩ := run_cons ran
    obtain ⟨ordinary, inside'⟩ := step_inDefinition inside stepped
    rw [List.countP_cons_of_neg (by simp [ordinary]), ih inside' ran]

/-- A list that begins with a call has one assignment. -/
theorem run_header {name : String} (expression : s.isDefinition = false)
    (ran : run (some name) previous us s = .ok final) : us.countP Token.isAssignment ≤ 1 := by
  induction us generalizing previous s with
  | nil => exact Nat.zero_le 1
  | cons t us ih =>
    obtain ⟨s', stepped, ran⟩ := run_cons ran
    cases assigns : t.isAssignment with
    | true =>
      have none := run_inDefinition (step_header expression stepped assigns) ran
      exact Nat.le_of_eq (by rw [List.countP_cons_of_pos assigns, none])
    | false =>
      rw [List.countP_cons_of_neg (by simp [assigns])]
      exact ih (step_keeps_expression assigns stepped expression) ran

/-- Behind the header of a definition its function is not called. -/
theorem not_call_inDefinition {name : String} (inside : s.isDefinition = true)
    (ran : run (some name) previous us s = .ok final) :
    ∀ index count, .call index name count ∉ us := by
  induction us generalizing previous s with
  | nil => exact fun _ _ => List.not_mem_nil
  | cons t us ih =>
    obtain ⟨s', stepped, ran⟩ := run_cons ran
    have inside' : s'.isDefinition = true := by
      by_contra expression
      rw [step_isDefinition stepped (Bool.not_eq_true _ ▸ expression)] at inside
      cases inside
    intro index count within
    rcases List.mem_cons.1 within with rfl | within
    · obtain ⟨-, a, advanced, -⟩ := step_ok stepped
      simp [advance, call, inside] at advanced
    · exact ih inside' ran index count within

/-- The first assignment behind a call begins the body of a definition. -/
theorem not_call_behind {name : String} (assigns : t.isAssignment = true)
    (ran : run (some name) previous (ts ++ t :: us) s = .ok final) :
    ∀ index count, .call index name count ∉ us := by
  induction ts generalizing previous s with
  | nil =>
    obtain ⟨s', stepped, ran⟩ := run_cons ran
    refine not_call_inDefinition ?_ ran
    by_contra expression
    rw [Bool.not_eq_true] at expression
    have before := step_isDefinition stepped expression
    rw [(step_header before stepped assigns).1] at expression
    cases expression
  | cons _ ts ih =>
    obtain ⟨s', -, ran⟩ := run_cons ran
    exact ih ran

/-- An expression does not begin with a call of a function that is not defined. -/
theorem head?_of_finish {name : String} {count : Nat}
    (finished : finish tokens s = .ok (checked, false)) :
    tokens.head? ≠ some (.call none name count) := by
  intro head
  have expression := (eq_of_finish finished).2
  rw [finish, head, ← expression] at finished
  split at finished <;> cases finished

end Legality

namespace Token

open List (Forall₂)

variable {ts us : List Token} {isDefinition : Bool}

theorem check_ok (checked : check ts = .ok (us, isDefinition)) :
    ∃ final, Legality.run (headerName? ts) none ts {} = .ok final ∧
      Legality.finish ts final = .ok (us, isDefinition) := by
  unfold check at checked
  cases ran : Legality.run (headerName? ts) none ts {} with
  | error e =>
    rw [ran] at checked
    cases checked
  | ok final =>
    rw [ran] at checked
    exact ⟨final, rfl, checked⟩

/-- Checking only fills in numbers of arguments. -/
theorem check_uncounted (checked : check ts = .ok (us, isDefinition)) :
    Legality.uncounted us = Legality.uncounted ts := by
  obtain ⟨final, ran, finished⟩ := check_ok checked
  rw [(Legality.eq_of_finish finished).1]
  simpa using Legality.run_uncounted ran

/-- So the tokens are restated. -/
theorem check_restates (checked : check ts = .ok (us, isDefinition)) : Forall₂ Restates us ts := by
  have same := check_uncounted checked
  unfold Legality.uncounted at same
  rw [← List.forall₂_eq_eq_eq, List.forall₂_map_left_iff, List.forall₂_map_right_iff] at same
  exact same.imp fun u t => restates_of_setCount

/-- A list without assignments is no definition. -/
theorem isDefinition_of_check (ordinary : ∀ t ∈ ts, t.isAssignment = false)
    (checked : check ts = .ok (us, isDefinition)) : isDefinition = false := by
  obtain ⟨final, ran, finished⟩ := check_ok checked
  rw [(Legality.eq_of_finish finished).2]
  exact Legality.run_keeps_expression ordinary rfl ran

/-- A list that begins with a call has one assignment at most. -/
theorem countP_isAssignment_le {name : String} (checked : check ts = .ok (us, isDefinition))
    (header : headerName? ts = some name) : ts.countP isAssignment ≤ 1 := by
  obtain ⟨final, ran, -⟩ := check_ok checked
  rw [header] at ran
  exact Legality.run_header rfl ran

/-- A definition does not call the function that it defines. -/
theorem not_call_of_check {name : String} {t : Token} {body : List Token}
    (checked : check (ts ++ t :: body) = .ok (us, isDefinition))
    (header : headerName? (ts ++ t :: body) = some name) (assigns : t.isAssignment = true) :
    ∀ index count, .call index name count ∉ body := by
  obtain ⟨final, ran, -⟩ := check_ok checked
  rw [header] at ran
  exact Legality.not_call_behind assigns ran

theorem head?_of_check {name : String} {count : Nat} (checked : check ts = .ok (us, false)) :
    ts.head? ≠ some (.call none name count) := by
  obtain ⟨final, -, finished⟩ := check_ok checked
  exact Legality.head?_of_finish finished

theorem restates_tightened (t : Token) : Restates t.tightened t := by
  cases t with
  | operator symbol order =>
    simp only [tightened]
    split <;> exact ⟨_, rfl⟩
  | _ => exact .refl _

theorem restates_ordered (t : Token) : Restates t.ordered t := by
  cases t <;> simp [ordered, Restates]

/-- When no name stands for a unit, binding only orders operators. -/
theorem bind_restates {isAssigned : CellId → Bool} {find : Option (String → Option ValueUnit)}
    (place : Nat)
    (noUnits : ∀ names ∈ find, ∀ cell name, .variable cell name ∈ ts → names name = none) :
    Forall₂ Restates (Token.bind isAssigned find place ts) ts := by
  refine forall₂_bind place Restates.refl Restates.trans restates_tightened restates_ordered ?_
  intro names found t within
  cases t with
  | «variable» cell name =>
    simp only [ordered, resolved, noUnits names found cell name within, ite_self]
    exact .refl _
  | _ => exact .refl _

/-- What holds of restated tokens and of units holds of all tokens of a bound list. -/
theorem forall_bind {P : Token → Prop} (restated : ∀ {t u}, Restates u t → P t → P u)
    (unit : ∀ value name, P (.unit (some value) name)) (all : ∀ t ∈ ts, P t) (isAssigned : CellId → Bool)
    (find : Option (String → Option ValueUnit)) (place : Nat) :
    ∀ t ∈ Token.bind isAssigned find place ts, P t := by
  have narrows : Forall₂ (fun u t => P t → P u) (Token.bind isAssigned find place ts) ts := by
    refine forall₂_bind place (fun _ => id) (fun first second => first ∘ second)
      (fun t => restated t.restates_tightened) (fun t => restated t.restates_ordered) ?_
    intro names _ t _ holds
    generalize t.ordered = t at holds ⊢
    unfold resolved
    repeat' split
    · exact holds
    · exact unit _ _
    · exact holds
    · exact holds
  intro u within
  obtain ⟨t, before, holds⟩ := exists_of_forall₂ narrows within
  exact holds (all t before)

end Token

end UnitCalc
