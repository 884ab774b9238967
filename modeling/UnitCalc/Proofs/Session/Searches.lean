/-
# Searches of blocks

A block lets its method search for an answer. The search for a root and the one for an extreme value
end with an evaluation of the objective at their answer. So a solution has a small residual, and the
variable in which the place of an extreme value is left belongs to the value of the block.

The right side of an equation is only looked at where the bounds of the block are. When the two
values differ, the block fails. Otherwise the value at the first bound, in the unit that the
objective has there, is what the objective is searched for; what the right side is in between does
not matter.

## Main definitions

* `SessionM.sampleEquation` evaluates both sides of an equation at the bounds.
* `SessionM.searchBlock` lets a method work on the problem of a block.

## Main results

* `SessionM.outcome_evaluateBlock`: a block that solves an equation samples it, and then searches.
* `SessionM.exists_of_searchBlock_ok`: the value of a block is that of its method.
* `SessionM.exists_place_of_evaluateBlock`: the place of an extreme value.
-/

import UnitCalc.Proofs.Calculator.Failures
import UnitCalc.Proofs.Method.Probes
import UnitCalc.Session.Evaluation

namespace UnitCalc

open SessionM (outcome)

/-- The block solves an equation, whose right side was compiled if the block was. -/
structure Block.SolvesEquation (b : Block) : Prop where
  method : b.method = .root
  equation : b.equation.isSome = true
  code : ∀ code ∈ b.code, code.equation.isSome = true

/-- The problem of a block in a session. -/
def Block.problem (b : Block) (calls : Calls) (code : BlockCode) (unit : Option ValueUnit)
    (s : Session) : Problem Float Float32 SessionM where
  objective x := do
    SessionM.checkCancelled
    SessionM.setUnknown b x unit
    code.objective.run calls
  isComplex := s.settings.complex
  unit := unit
  precision := s.precision

/-- A block that searches for an extreme value leaves the place of its last evaluation in a
variable. -/
def Block.leavePlace (b : Block) (s : Session) : Session :=
  match b.extremum with
  | some id => s.assign id (s.cell b.parameter).value
  | none => s

/-- The right side of an equation is compiled with its block. -/
theorem Block.ends_compile (b : Block) (c : Compilation) (equation : b.equation.isSome = true) :
    Ends (fun _ => True) (fun code => code.equation.isSome = true) (b.compile c) := by
  have any {α : Type} (r : Except CalcError α) : Ends (fun _ => True) (fun _ => True) r := by
    cases r <;> trivial
  obtain ⟨part, side⟩ := Option.isSome_iff_exists.1 equation
  refine (any _).bind fun objective _ => (any _).bind fun lower _ => (any _).bind fun upper _ => ?_
  rw [side, Option.mapM_some]
  have mapped : Ends (fun _ => True) (fun code : Option Code => code.isSome = true)
      (some <$> Code.ofPostfix c part.program) := (any _).map fun code _ => rfl
  exact mapped.bind fun equation holds => holds

/-- What the search of a block for a solution starts from: the code of the block, its bounds, the
value of the objective at the first bound, and those of the right side at both. -/
structure EquationSamples where
  code : BlockCode
  lower : Value
  upper : Value
  objective : Value
  first : Value
  second : Value

namespace SessionM

variable {calls : Calls} {index : Nat} {b : Block} {s s' : Session}

/-- Evaluates both sides of an equation at the bounds of its block. -/
def sampleEquation (calls : Calls) (index : Nat) (b : Block) : SessionM EquationSamples := do
  checkCancelled
  let code ← blockCode index b
  let (lower, upper) ← blockBounds calls b code
  setUnknown b lower.re lower.unit
  match code.equation with
  | some equation =>
    let objective ← code.objective.run calls
    let first ← equation.run calls
    setUnknown b upper.re upper.unit
    let second ← equation.run calls
    setUnknown b lower.re lower.unit
    return { code, lower, upper, objective, first, second }
  | none => throw .emptyExpression

/-- Lets the method of a block work on its problem between two bounds. -/
def searchBlock (calls : Calls) (b : Block) (code : BlockCode) (lower upper : Value)
    (target : Float) : SessionM Value := do
  let problem ← blockProblem calls b code lower.unit
  let (num, unit) ← wordedBy b ((b.method.compute problem lower.re upper.re target).run none)
  if let some id := b.extremum then
    modify fun s => s.assign id (s.cell b.parameter).value
  if num.re.isNaN && !(← get).isPlotting then throw (.noSolution b.text)
  return { num, unit }

theorem outcome_bind_congr {α β : Type} {x : SessionM α} {f g : α → SessionM β}
    (same : ∀ a s', outcome x s = (.ok a, s') → outcome (f a) s' = outcome (g a) s') :
    outcome (x >>= f) s = outcome (x >>= g) s := by
  rw [outcome_bind, outcome_bind]
  cases ended : outcome x s with
  | mk r s' =>
    cases r with
    | error e => rfl
    | ok a => exact same a s' ended

/-- The code of a block that solves an equation has a right side. -/
theorem isSome_equation {code : BlockCode} (solves : b.SolvesEquation)
    (compiled : outcome (blockCode index b) s = (.ok code, s')) : code.equation.isSome = true := by
  unfold blockCode at compiled
  cases known : b.code with
  | some code' =>
    rw [known] at compiled
    cases compiled
    exact solves.code code known
  | none =>
    rw [known] at compiled
    obtain ⟨code', s₁, made, ended⟩ := exists_of_bind_ok compiled
    rw [outcome_read] at made
    cases ended
    exact (b.ends_compile _ solves.equation).of_ok (congrArg Prod.fst made)

/-- A block that solves an equation evaluates both sides at its bounds, and then searches. -/
theorem outcome_evaluateBlock (calls : Calls) (found : s.blocks[index]? = some b)
    (solves : b.SolvesEquation) :
    outcome (evaluateBlock calls index) s = outcome (do
      let r ← sampleEquation calls index b
      let target ← ofExcept (b.alignedTarget r.objective.unit r.first r.second)
      searchBlock calls b r.code r.lower r.upper target) s := by
  unfold evaluateBlock sampleEquation
  rw [outcome_bind_ok (outcome_get s), found]
  simp only [bind_assoc]
  refine outcome_bind_congr fun _ s₁ _ => outcome_bind_congr fun code s₂ compiled => ?_
  refine outcome_bind_congr fun bounds s₃ _ => outcome_bind_congr fun _ s₄ _ => ?_
  obtain ⟨equation, some⟩ := Option.isSome_iff_exists.1 (isSome_equation solves compiled)
  cases place : b.extremum <;>
    simp only [blockTarget, searchBlock, solves.method, some, place, bind_assoc, pure_bind]

/-- A value that is not undefined, unless undefined values are plotted. -/
def definedValue (b : Block) (num : Complex Float) (unit : Option ValueUnit) : SessionM Value := do
  if num.re.isNaN && !(← get).isPlotting then throw (.noSolution b.text)
  return { num, unit }

theorem of_definedValue_ok {num : Complex Float} {unit : Option ValueUnit} {v : Value}
    (ended : outcome (definedValue b num unit) s = (.ok v, s')) : v = { num, unit } ∧ s' = s := by
  unfold definedValue at ended
  rw [outcome_bind_ok (outcome_get s)] at ended
  split at ended
  · cases ended
  · cases ended
    exact ⟨rfl, rfl⟩

/-- The value of a block is what its method computes. -/
theorem exists_of_searchBlock_ok {code : BlockCode} {lower upper : Value} {target : Float}
    {v : Value} (ended : outcome (searchBlock calls b code lower upper target) s = (.ok v, s')) :
    ∃ num unit s₁, outcome ((b.method.compute (b.problem calls code lower.unit s) lower.re
        upper.re target).run none) s = (.ok (num, unit), s₁) ∧ v = { num, unit } ∧
      s' = b.leavePlace s₁ := by
  obtain ⟨problem, s₁, same, ended⟩ := exists_of_bind_ok ended
  cases same
  obtain ⟨⟨num, unit⟩, s₂, worded, ended⟩ := exists_of_bind_ok ended
  have computed := of_tryCatch_ok (fun e s b => by simp) worded
  dsimp only at ended
  unfold Block.leavePlace
  split at ended
  · next id place =>
    obtain ⟨_, s₃, left, ended⟩ := exists_of_bind_ok ended
    cases left
    obtain ⟨rfl, rfl⟩ := of_definedValue_ok ended
    exact ⟨num, unit, s₂, computed, rfl, by rw [place]⟩
  · next place =>
    obtain ⟨rfl, rfl⟩ := of_definedValue_ok ended
    refine ⟨num, unit, s', computed, rfl, ?_⟩
    split
    · next id place' => exact absurd place' (place id)
    · rfl

/-- The value of a block is that of its search. -/
theorem exists_searchBlock_of_evaluateBlock {v : Value} (found : s.blocks[index]? = some b)
    (ended : outcome (evaluateBlock calls index) s = (.ok v, s')) :
    ∃ code lower upper target s₁,
      outcome (searchBlock calls b code lower upper target) s₁ = (.ok v, s') := by
  unfold evaluateBlock at ended
  rw [outcome_bind_ok (outcome_get s), found] at ended
  obtain ⟨_, _, -, ended⟩ := exists_of_bind_ok ended
  obtain ⟨code, _, -, ended⟩ := exists_of_bind_ok ended
  obtain ⟨⟨lower, upper⟩, _, -, ended⟩ := exists_of_bind_ok ended
  obtain ⟨_, _, -, ended⟩ := exists_of_bind_ok ended
  obtain ⟨target, s₁, -, ended⟩ := exists_of_bind_ok ended
  exact ⟨code, lower, upper, target, s₁, ended⟩

/-- A block that searches for an extreme value has the value of its last evaluation, and leaves the
place of this evaluation in its variable. -/
theorem exists_place_of_evaluateBlock {v : Value} {id : CellId}
    (found : s.blocks[index]? = some b) (extreme : b.method = .supremum ∨ b.method = .infimum)
    (leaves : b.extremum = some id)
    (ended : outcome (evaluateBlock calls index) s = (.ok v, s')) :
    ∃ code lower s₁ log x q s₂,
      (b.problem calls code lower s₁).Probes s₁ (log ++ [(x, q)]) s₂ ∧ v.re = q.re ∧
        s' = s₂.assign id (s₂.cell b.parameter).value := by
  obtain ⟨code, lower, upper, target, s₁, ended⟩ := exists_searchBlock_of_evaluateBlock found ended
  obtain ⟨num, unit, s₂, computed, rfl, rfl⟩ := exists_of_searchBlock_ok ended
  have searched : ∃ isMinimum, outcome (((b.problem calls code lower.unit s₁).extremeValue isMinimum
      lower.re upper.re).run none) s₁ = (.ok (num.re, unit), s₂) := by
    rcases extreme with method | method
    all_goals
      rw [method] at computed
      obtain ⟨y, u, s₃, found, ended⟩ := MethodM.exists_of_bind_ok computed
      cases ended
      exact ⟨_, found⟩
  obtain ⟨isMinimum, searched⟩ := searched
  obtain ⟨log, x, q, probes, value⟩ := Problem.exists_probes_extremeValue searched
  exact ⟨code, lower.unit, s₁, log, x, q, s₂, probes, value.symm, by rw [Block.leavePlace, leaves]⟩

theorem exists_of_alignedTarget_ok {unit : Option ValueUnit} {first second : Value} {t : Float}
    (aligned : b.alignedTarget unit first second = .ok t) :
    ¬ Block.equationTolerance < (first.re - second.re).abs ∧
      ∃ k, conversion unit first.unit '=' = .ok k ∧ t = first.re * k := by
  unfold Block.alignedTarget at aligned
  dsimp only at aligned
  split at aligned
  · cases aligned
  · next constant =>
    split at aligned
    · next k converted =>
      cases aligned
      exact ⟨constant, k, converted, rfl⟩
    · cases aligned

/-- An equation whose right side differs at the bounds is rejected. A solution that is a number was
the last point that the objective was evaluated at, and if the objective has there the unit that it
has at the first bound, it is close to the value that the right side has at that bound. -/
theorem evaluateBlock_solution (calls : Calls) (found : s.blocks[index]? = some b)
    (solves : b.SolvesEquation) :
    (∀ r s₁, outcome (sampleEquation calls index b) s = (.ok r, s₁) →
      Block.equationTolerance < (r.first.re - r.second.re).abs →
      outcome (evaluateBlock calls index) s =
        (.error (.notConstant (b.equation.elim "" Part.text)), s₁)) ∧
    ∀ v s', outcome (evaluateBlock calls index) s = (.ok v, s') → v.re.isNaN = false →
      ∃ r s₁ k, outcome (sampleEquation calls index b) s = (.ok r, s₁) ∧
        ¬ Block.equationTolerance < (r.first.re - r.second.re).abs ∧
        conversion r.objective.unit r.first.unit '=' = .ok k ∧
        v = { num := .ofReal v.re, unit := r.lower.unit } ∧
        ∃ log q s₂, (b.problem calls r.code r.lower.unit s₁).Probes s₁ (log ++ [(v.re, q)]) s₂ ∧
          s' = b.leavePlace s₂ ∧ Scalar.isFinite q.re = true ∧
          (q.unit = r.objective.unit →
            (b.problem calls r.code r.lower.unit s₁).Solves (r.first.re * k) q.re) := by
  rw [outcome_evaluateBlock calls found solves]
  constructor
  · intro r s₁ sampled differs
    rw [outcome_bind_ok sampled, Block.alignedTarget, if_pos differs]
    rfl
  · intro v s' ended number
    obtain ⟨r, s₁, sampled, ended⟩ := exists_of_bind_ok ended
    obtain ⟨t, aligned, ended⟩ := exists_of_ofExcept_ok ended
    obtain ⟨constant, k, converted, rfl⟩ := exists_of_alignedTarget_ok aligned
    obtain ⟨num, unit, s₂, computed, rfl, rfl⟩ := exists_of_searchBlock_ok ended
    rw [solves.method] at computed
    obtain ⟨x, u, s₃, found, ended⟩ := MethodM.exists_of_bind_ok computed
    cases ended
    obtain ⟨rfl, undefined | ⟨log, q, probes, finite, solution⟩⟩ :=
      Problem.exists_probes_root found
    · -- an undefined root is no number
      subst undefined
      have undefined : (Scalar.nan : Float).isNaN = true := by decide +kernel
      exact absurd (undefined.symm.trans number) (by decide)
    · exact ⟨r, s₁, k, sampled, constant, converted, rfl, log, q, s₂, probes, rfl, finite,
        fun _ => solution⟩

/-- A session that has read an equation. -/
def sessionOfEquation (text : String) : Session :=
  (outcome (parse text) (.start {} ⟨1, 1⟩)).2

/-- The block of `x - 2 = 0` between 1 and 3 has the value 2, at which the objective was evaluated
last. -/
theorem evaluateBlock_solution_two :
    ∃ (s s' : Session) (b : Block) (v : Value), s.blocks[0]? = some b ∧ b.SolvesEquation ∧
      outcome (evaluateBlock s.calls 0) s = (.ok v, s') ∧ v.re = 2 ∧
      ∃ (r : EquationSamples) (s₁ s₂ : Session) (log : List (Float × Value)) (q : Value),
        (b.problem s.calls r.code r.lower.unit s₁).Probes s₁ (log ++ [(2, q)]) s₂ ∧
          s' = b.leavePlace s₂ := by
  let s := sessionOfEquation "$root\x7bx - 2 = 0 @ x : 1 : 3\x7d"
  have read : (s.blocks[0]?.map fun b => (b.method = .root : Bool) && b.equation.isSome &&
      b.code.isNone) = some true := by decide +kernel
  have solved : (outcome (evaluateBlock s.calls 0) s).1.toOption.map Quantity.re = some 2 := by
    decide +kernel
  obtain ⟨b, found, block⟩ := Option.map_eq_some_iff.1 read
  simp only [Bool.and_eq_true, decide_eq_true_eq] at block
  obtain ⟨⟨method, equation⟩, fresh⟩ := block
  have solves : b.SolvesEquation :=
    ⟨method, equation, by rw [Option.isNone_iff_eq_none.1 fresh]; exact nofun⟩
  obtain ⟨v, s', ended, two⟩ := exists_of_toOption solved
  obtain ⟨r, s₁, -, -, -, -, -, log, q, s₂, probes, same, -, -⟩ :=
    (evaluateBlock_solution s.calls found solves).2 v s' ended (by rw [two]; decide +kernel)
  rw [two] at probes
  exact ⟨s, s', b, v, found, solves, ended, two, r, s₁, s₂, log, q, probes, same⟩

/-- The real value of a text in a new session. -/
def realValue? (text : String) : Option Float :=
  (outcome (evaluate text) (.start {} ⟨1, 1⟩)).1.toOption.map fun o => o.value.re

/-- The right side of an equation may differ from its values at the bounds in between: `x - 2` and
`(x - 1)*(x - 3)` are `0` and `-1` at the answer. -/
theorem solution_of_unequal_sides :
    realValue? "$root\x7bx - 2 = (x - 1)*(x - 3) @ x : 1 : 3\x7d" = some 2 ∧
    realValue? "2 - 2" = some 0 ∧ realValue? "(2 - 1)*(2 - 3)" = some (-1) ∧
    (realValue? "(1 - 1)*(1 - 3)").map Float.abs = some 0 ∧
    (Session.start {} ⟨1, 1⟩).precision = 1e-14 ∧
    (1e-14 : Float).sqrt * 1 + 1e-14 < 1 := by
  decide +kernel

end SessionM

end UnitCalc
