/-
# Programs of assignments

The tokens of an expression stay as they are behind an assignment: the check fills in the same
numbers of arguments, and operators get the same orders, unless the first token of the expression
is a name that becomes a unit only there. The sign of the assignment waits below all operators, so
the program of the expression stands between the target and the sign.

## Main results

* `Token.check_assignment`: the check of an assignment.
* `Token.bind_assignment`: its operators and names.
* `Postfix.ofTokens_assignment`: its program.
-/

import UnitCalc.Proofs.Postfix.Accepted
import UnitCalc.Proofs.Postfix.Conservation
import UnitCalc.Proofs.Token.UnitRuns

namespace UnitCalc

open List (Forall₂)

/-! ## The check -/

namespace Legality

open Token

variable {header header' : Option String} {previous previous' : Option Token} {t : Token}
  {before ts : List Token} {s s' r final : State}

/-- What is legal stays so behind other tokens. -/
theorem exists_advance (behind : s.Behind before s') (expression : s'.isDefinition = false)
    (ordinary : t.isAssignment = false) (advanced : advance header previous t s = .ok r) :
    ∃ r', advance header' previous' t s' = .ok r' := by
  cases t with
  | closeBracket =>
    simp only [advance, closeBracket] at advanced ⊢
    rw [behind.depth]
    cases level : s.depth with
    | zero =>
      rw [level] at advanced
      cases advanced
    | succ depth =>
      dsimp only
      repeat' split
      all_goals exact ⟨_, rfl⟩
  | operator symbol order =>
    have other : (symbol == '=') = false := ordinary
    exact ⟨_, by rw [advance, other, if_neg (by decide)]⟩
  | call index name count =>
    simp only [advance, call, expression, Bool.false_and]
    rw [if_neg (by decide)]
    split <;> exact ⟨_, rfl⟩
  | _ => exact ⟨_, rfl⟩

theorem exists_run (behind : s.Behind before s') (expression : s'.isDefinition = false)
    (ordinary : ∀ t ∈ ts, t.isAssignment = false)
    (follows : ∀ t ∈ ts.head?, t.mayFollow previous' = true)
    (ran : run header previous ts s = .ok final) :
    ∃ final', run header' previous' ts s' = .ok final' := by
  induction ts generalizing previous previous' s s' with
  | nil => exact ⟨s', rfl⟩
  | cons t ts ih =>
    rw [List.forall_mem_cons] at ordinary
    obtain ⟨r, stepped, ran⟩ := run_cons ran
    obtain ⟨-, a, advanced, rfl⟩ := step_ok stepped
    obtain ⟨a', advanced'⟩ : ∃ a', advance header' previous' t s' = .ok a' :=
      exists_advance behind expression ordinary.1 advanced
    have stepped' : step header' previous' t s' =
        .ok { a' with checked := a'.checked.push t } := by
      rw [step, if_pos (follows t rfl), advanced']
      rfl
    have next := advance_behind behind rfl ordinary.1 advanced advanced'
    have pushed : State.Behind before { a with checked := a.checked.push t }
        { a' with checked := a'.checked.push t } := by
      refine ⟨?_, next.depth, next.separators, next.openCalls⟩
      simp only [Array.toList_push, List.map_append, next.checked, List.append_assoc]
    have goes : ∀ u ∈ ts.head?, u.mayFollow (some t) = true := by
      intro u first
      obtain ⟨us, rfl⟩ : ∃ us, ts = u :: us := by
        cases ts with
        | nil => cases first
        | cons v us =>
          cases first
          exact ⟨us, rfl⟩
      obtain ⟨r', stepped, -⟩ := run_cons ran
      exact (step_ok stepped).1
    obtain ⟨final', ran'⟩ := ih pushed (step_keeps_expression ordinary.1 stepped' expression)
      ordinary.2 goes ran
    exact ⟨final', by rw [run, stepped']; exact ran'⟩

end Legality

namespace Token

variable {cell : Option CellId} {name : String} {ts us vs : List Token}

theorem eq_of_restates {t u v : Token} (same : u.withoutCell = v.withoutCell)
    (first : Restates u t) (second : Restates v t) : u = v := by
  cases t with
  | operator | negation | multiFunction =>
    obtain ⟨x, rfl⟩ := first
    obtain ⟨y, rfl⟩ := second
    exact same
  | _ => exact Eq.trans first (Eq.symm second)

/-- Restated lists differ in orders and numbers of arguments only. -/
theorem eq_of_forall₂_restates (same : us.map withoutCell = vs.map withoutCell)
    (first : Forall₂ Restates us ts) (second : Forall₂ Restates vs ts) : us = vs := by
  induction first generalizing vs with
  | nil =>
    cases second
    rfl
  | cons restated _ ih =>
    obtain _ | ⟨restated', rest⟩ := second
    obtain ⟨token, tokens⟩ := List.cons.inj same
    rw [eq_of_restates token restated restated', ih tokens rest]

/-- What may stand inside of a bracket may stand behind an assignment. -/
theorem mayFollow_assignment {t : Token} (begins : t.mayFollow (some .openBracket) = true) :
    t.mayFollow (some (.ofSymbol '=')) = true := by
  revert begins
  show t.classAfter.mayFollow .openBracket = true → t.classAfter.mayFollow .operator = true
  cases t.classAfter <;> decide

/-- The check of an assignment to a variable. -/
theorem check_assignment (checked : check ts = .ok (us, false))
    (ordinary : ∀ t ∈ ts, t.isAssignment = false)
    (begins : ts.head?.any (fun t => t.mayFollow (some (.ofSymbol '='))) = true) :
    check (.variable cell name :: .ofSymbol '=' :: ts) =
      .ok (.variable cell name :: .ofSymbol '=' :: us, false) := by
  obtain ⟨final, ran, finished⟩ := check_ok checked
  obtain ⟨first, rest, rfl⟩ : ∃ first rest, ts = first :: rest := by
    cases ts with
    | nil => cases begins
    | cons first rest => exact ⟨first, rest, rfl⟩
  let s : Legality.State :=
    { checked := #[.variable cell name, .ofSymbol '='], seenOperator := true }
  have behind : Legality.State.Behind [.variable none name, .ofSymbol '='] {} s :=
    ⟨rfl, rfl, rfl, rfl⟩
  obtain ⟨final', ran'⟩ : ∃ final', Legality.run none (some (.ofSymbol '=')) (first :: rest) s =
      .ok final' :=
    Legality.exists_run behind rfl ordinary (fun t same => by
      cases same
      simpa using begins) ran
  have related := Legality.run_behind behind rfl ordinary ran ran'
  have whole : Legality.run none none (.variable cell name :: .ofSymbol '=' :: first :: rest) {} =
      .ok final' := ran'
  have expression := Legality.run_keeps_expression ordinary rfl ran'
  obtain ⟨complete, depth, separators, -, rfl⟩ := Legality.finish_ok finished
  have finished' : Legality.finish (.variable cell name :: .ofSymbol '=' :: first :: rest) final' =
      .ok (final'.checked.toList, false) := by
    have last : (.variable cell name :: .ofSymbol '=' :: first :: rest : List Token).getLast? =
        (first :: rest).getLast? := by simp
    have same : final'.depth = 0 ∧ final'.separators = 0 :=
      ⟨related.depth.trans depth, related.separators.trans separators⟩
    simp [Legality.finish, last, complete, same, expression]
  have accepted : check (.variable cell name :: .ofSymbol '=' :: first :: rest) =
      .ok (final'.checked.toList, false) := by
    unfold check
    rw [headerName?, whole]
    · exact finished'
    · intro index f count rest same
      cases same
  -- The tokens that were checked are the same, since they differ neither in cells nor otherwise.
  have same := related.checked
  have restated := check_restates accepted
  generalize final'.checked.toList = vs at same restated accepted
  obtain _ | ⟨target, restated⟩ := restated
  obtain _ | ⟨⟨order, rfl⟩, restated⟩ := restated
  cases target
  obtain ⟨-, behindTarget⟩ := List.cons.inj same
  obtain ⟨sign, behindSign⟩ := List.cons.inj behindTarget
  cases sign
  rw [accepted, eq_of_forall₂_restates behindSign restated (check_restates checked)]
  rfl

/-! ## Orders -/

/-- The sign of an assignment with its order. -/
def assignment : Token :=
  .operator '=' Operator.assign.order

/-- Behind an assignment an expression is bound as by itself, when its first token is no name that
becomes a unit there. -/
theorem bind_assignment (isAssigned : CellId → Bool) (find : Option (String → Option ValueUnit))
    (stays : ∀ names ∈ find, ∀ t ∈ us.head?, t.ordered.resolved isAssigned names = t.ordered) :
    Token.bind isAssigned find 1 (.variable cell name :: .ofSymbol '=' :: us) =
      .variable cell name :: Token.assignment ::
        Token.bind isAssigned find 0 us := by
  unfold Token.bind
  cases find with
  | none =>
    dsimp only
    rw [List.mapIdx_cons, List.mapIdx_cons]
    exact (tighten_cons rfl _).trans (congrArg _ (tighten_cons rfl _))
  | some names =>
    dsimp only
    rw [List.mapIdx_cons, List.mapIdx_cons]
    refine (tighten_cons rfl _).trans (congrArg _ ((tighten_cons rfl _).trans (congrArg _ ?_)))
    congr 1
    cases us with
    | nil => rfl
    | cons t us =>
      have first := stays names rfl t rfl
      rw [List.mapIdx_cons, List.mapIdx_cons]
      simp [first]

/-- An operator other than the assignment binds tighter. -/
def bindsTighter : Token → Prop
  | operator symbol order => symbol ≠ '=' ∧ order < Operator.assign.order
  | _ => True

theorem isAssignment_of_bindsTighter {t : Token} (tighter : t.bindsTighter) :
    t.isAssignment = false := by
  cases t with
  | operator => exact beq_eq_false_iff_ne.2 tighter.1
  | _ => rfl

theorem bindsTighter_ordered {t : Token} (tighter : t.bindsTighter) : t.ordered.bindsTighter := by
  cases t with
  | operator symbol order =>
    obtain ⟨other, below⟩ := tighter
    refine ⟨other, ?_⟩
    split
    · cases found : Operator.ofSymbol? symbol with
      | none => exact below
      | some o =>
        have table : ∀ o : Operator, o ≠ .assign → o.order < Operator.assign.order := by
          intro o
          cases o <;> decide
        refine table o ?_
        rintro rfl
        unfold Operator.ofSymbol? at found
        split at found
        · cases found
        · have same := List.find?_some found
          exact other (beq_iff_eq.1 same).symm
    · exact below
  | _ => trivial

theorem bindsTighter_tightened {t : Token} (tighter : t.bindsTighter) :
    t.tightened.bindsTighter := by
  cases t with
  | operator symbol order =>
    simp only [tightened]
    split
    · exact ⟨tighter.1, by decide⟩
    · exact tighter
  | _ => trivial

theorem bindsTighter_bind (isAssigned : CellId → Bool) (find : Option (String → Option ValueUnit))
    (place : Nat) (all : ∀ t ∈ ts, t.bindsTighter) :
    ∀ t ∈ Token.bind isAssigned find place ts, t.bindsTighter := by
  have keeps : Forall₂ (fun u t => t.bindsTighter → u.bindsTighter)
      (Token.bind isAssigned find place ts) ts := by
    refine forall₂_bind place (fun _ => id) (fun first second => first ∘ second)
      (fun _ => bindsTighter_tightened) (fun _ => bindsTighter_ordered) ?_
    intro names _ t _ tighter
    generalize t.ordered = t at tighter ⊢
    unfold resolved
    repeat' split
    all_goals exact tighter
  intro u within
  obtain ⟨t, before, kept⟩ := exists_of_forall₂ keeps within
  exact kept (all t before)

end Token

/-! ## The program -/

namespace Postfix

open Token

variable {stack ts us : List Token} {cell : Option CellId} {name : String}

theorem dropWhile_append_stays {p : Token → Bool} {t : Token} (stays : p t = false)
    (stack : List Token) : (stack ++ [t]).dropWhile p = stack.dropWhile p ++ [t] ∧
      (stack ++ [t]).takeWhile p = stack.takeWhile p := by
  induction stack with
  | nil => simp [stays]
  | cons u stack ih =>
    rw [List.cons_append]
    cases yields : p u <;> simp [yields, ih]

theorem dropWhile_append_stopped {p : Token → Bool} {bracket : Token} {below : List Token}
    (stopped : stack.dropWhile p = bracket :: below) (us : List Token) :
    (stack ++ us).dropWhile p = bracket :: (below ++ us) ∧
      (stack ++ us).takeWhile p = stack.takeWhile p := by
  induction stack with
  | nil => cases stopped
  | cons u stack ih =>
    rw [List.cons_append]
    cases yields : p u with
    | true =>
      simp only [List.dropWhile_cons, yields, if_true] at stopped
      simp [yields, ih stopped]
    | false =>
      simp only [List.dropWhile_cons, yields, Bool.false_eq_true, if_false] at stopped
      cases stopped
      simp [yields]

/-- An assignment at the bottom of the stack waits for the end. -/
theorem ofTokensFrom_assignment (tighter : ∀ t ∈ ts, t.bindsTighter) :
    ofTokensFrom (stack ++ [Token.assignment]) ts =
      (ofTokensFrom stack ts).map (· ++ [Token.assignment]) := by
  induction ts generalizing stack with
  | nil =>
    simp only [ofTokensFrom, drain, List.all_append]
    rw [show [Token.assignment].all isNotOpen = true from rfl, Bool.and_true]
    split <;> rfl
  | cons t ts ih =>
    rw [List.forall_mem_cons] at tighter
    have rest (stack : List Token) : ofTokensFrom (stack ++ [Token.assignment]) ts =
        (ofTokensFrom stack ts).map (· ++ [Token.assignment]) := ih tighter.2
    have comm {f : List Token → List Token}
        (fits : ∀ program us, f (program ++ us) = f program ++ us)
        (r : Except CalcError (List Token)) :
        (r.map (· ++ [Token.assignment])).map f =
          (r.map f).map (· ++ [Token.assignment]) := by
      cases r with
      | error e => rfl
      | ok program => exact congrArg Except.ok (fits program _)
    cases t with
    | blank => exact rest stack
    | constant | unit | «variable» | block | input =>
      simp only [ofTokensFrom, rest]
      exact comm (fun _ _ => rfl) _
    | negation | openBracket | function | binaryFunction | multiFunction | conditional | call =>
      exact rest (_ :: stack)
    | operator symbol order =>
      have below : order < Operator.assign.order := tighter.1.2
      have stays : yieldsTo symbol order (Token.assignment) = false := by
        simp only [Token.assignment, yieldsTo, Bool.or_eq_false_iff, decide_eq_false_iff_not,
          Bool.and_eq_false_iff, beq_eq_false_iff_ne]
        omega
      obtain ⟨dropped, taken⟩ := dropWhile_append_stays stays stack
      simp only [ofTokensFrom, dropped, taken]
      rw [← List.cons_append, rest]
      exact comm (fun _ _ => (List.append_assoc ..).symm) _
    | factorial =>
      have stays : yieldsToFactorial Token.assignment = false := rfl
      obtain ⟨dropped, taken⟩ := dropWhile_append_stays stays stack
      simp only [ofTokensFrom, dropped, taken, rest]
      exact comm (fun _ _ => by simp) _
    | closeBracket | separator =>
      simp only [ofTokensFrom]
      -- Without a bracket on the stack there is none with the assignment below it.
      cases stopped : stack.dropWhile isNotOpen with
      | nil =>
        have none : (stack ++ [Token.assignment]).dropWhile isNotOpen = [] := by
          rw [List.dropWhile_append, stopped]
          rfl
        rw [none]
        rfl
      | cons bracket below =>
        obtain ⟨dropped, taken⟩ := dropWhile_append_stopped stopped [Token.assignment]
        simp only [dropped, taken]
        refine (congrArg (Except.map _) ?_).trans (comm (fun _ _ => (List.append_assoc ..).symm) _)
        first
        | exact rest below
        | exact rest (bracket :: below)

/-- The program of an assignment: the target, the program of the expression, and the sign. -/
theorem ofTokens_assignment (tighter : ∀ t ∈ ts, t.bindsTighter) :
    ofTokens (.variable cell name :: Token.assignment :: ts) =
      (ofTokens ts).map fun program =>
        .variable cell name :: (program ++ [Token.assignment]) := by
  have whole : ofTokens (.variable cell name :: Token.assignment :: ts) =
      (((ofTokensFrom ([] ++ [Token.assignment]) ts).map ([] ++ ·)).map
        (.variable cell name :: ·)) := rfl
  rw [whole, ofTokensFrom_assignment tighter, ofTokens]
  cases ofTokensFrom [] ts <;> rfl

end Postfix

end UnitCalc
