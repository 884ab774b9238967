/-
# Pure functions

A statement assigns once at most, and in a definition it does so behind the header. So the body of a
function assigns nothing, and neither does the code that is compiled from it. What a call stores are
its arguments, in cells of the function that have no name. This holds in all sessions that answer
requests, and a cell of a variable never becomes that of a parameter, even when the name of the
variable is forgotten.

## Main definitions

* `Session.IsVariable`: a cell of the session that belongs to no parameter of a function.
* `Session.HasPureFunctions`: functions assign nothing, and their parameters have no names.
* `Session.Becomes`: what a session becomes that answers requests.

## Main results

* `Session.Becomes.hasPureFunctions`: a session that answers requests keeps its functions pure.
* `Session.Becomes.isVariable`: what is a variable once is never a parameter.
-/

import UnitCalc.Proofs.Session.Occurrence

namespace UnitCalc

open SessionM

namespace Session

variable {s s' s₀ : Session} {i : Nat} {id : CellId} {f : UserFunction}

/-! ## Functions -/

/-- The cells of the parameters of a function. -/
def parametersOf (s : Session) (i : Nat) : List CellId :=
  s.functions[i]?.elim [] UserFunction.cells

/-- A cell of the session that belongs to no parameter of a function. -/
structure IsVariable (s : Session) (id : CellId) : Prop where
  exists_ : id < s.cells.size
  free : ∀ i, id ∉ s.parametersOf i

/-- Functions assign nothing, neither by their texts nor by their code, and their parameters have no
names. -/
structure HasPureFunctions (s : Session) : Prop where
  hidden : ∀ i, ∀ id ∈ s.parametersOf i, s.IsPrivate id
  still : ∀ i, ∀ t ∈ s.tokensOf (.function i), t.isAssignment = false
  codes : ∀ i, ∀ code ∈ s.codesOf (.function i), code.IsPure

theorem parametersOf_eq (found : s.functions[i]? = some f) : s.parametersOf i = f.cells := by
  rw [parametersOf, found, Option.elim_some]

/-- Parameters and texts are told by the definitions of functions. -/
theorem parametersOf_congr (same : s'.definitionOf i = s.definitionOf i) :
    s'.parametersOf i = s.parametersOf i ∧
      s'.tokensOf (.function i) = s.tokensOf (.function i) := by
  have told : ∀ s : Session,
      s.parametersOf i = (s.definitionOf i).elim [] UserFunction.cells ∧
        s.tokensOf (.function i) = (s.definitionOf i).elim [] UserFunction.body := by
    intro s
    rw [parametersOf, tokensOf, definitionOf]
    cases s.functions[i]? <;> exact ⟨rfl, rfl⟩
  rw [(told s).1, (told s).2, (told s').1, (told s').2, same]
  exact ⟨rfl, rfl⟩

/-- Named cells are variables. -/
theorem HasPureFunctions.isVariable (pure : s.HasPureFunctions) (separates : s.SeparatesNames)
    (isNamed : s.IsNamed id) : s.IsVariable id := by
  obtain ⟨name, named⟩ := isNamed
  exact ⟨separates.named name id named, fun i own => (pure.hidden i id own).unnamed name named⟩

/-- What is compiled from the text of a pure function is pure. -/
theorem HasPureFunctions.isPure_of_compiles (pure : s.HasPureFunctions) {code : Code}
    (compiles : s.Compiles (.function i) code) : code.IsPure := by
  obtain ⟨c, program, inside, made⟩ := compiles
  exact Code.isPure_of_ofPostfix (fun t within => pure.still i t (inside within)) made

/-- Functions stay pure as long as they are defined as before, and only code is kept that was kept
before or is compiled from its text. -/
theorem HasPureFunctions.change (pure : s.HasPureFunctions) (later : s.Later s')
    (codes : ∀ i, ∀ code ∈ s'.codesOf (.function i),
      code ∈ s.codesOf (.function i) ∨ s.Compiles (.function i) code) : s'.HasPureFunctions where
  hidden i id own := by
    rw [(parametersOf_congr (later.definitionOf i)).1] at own
    exact later.isPrivate id (pure.hidden i id own)
  still i := by
    rw [(parametersOf_congr (later.definitionOf i)).2]
    exact pure.still i
  codes i code kept := (codes i code kept).elim (pure.codes i code) pure.isPure_of_compiles

theorem Later.isVariable (later : s.Later s') (isVariable : s.IsVariable id) :
    s'.IsVariable id where
  exists_ := Nat.lt_of_lt_of_le isVariable.exists_ later.size
  free i := by
    rw [(parametersOf_congr (later.definitionOf i)).1]
    exact isVariable.free i

theorem Step.hasPureFunctions (step : s.Step s') (pure : s.HasPureFunctions) :
    s'.HasPureFunctions :=
  pure.change step.later fun i => step.codesOf (.function i)

theorem Reads.hasPureFunctions (reads : s.Reads s') (pure : s.HasPureFunctions) :
    s'.HasPureFunctions := by
  induction reads with
  | refl => exact pure
  | tail _ step ih => exact step.hasPureFunctions ih

/-! ## Definitions -/

namespace Defines

variable {j : Nat} (defines : s.Defines j f s')

include defines

/-- The parameters of a function are those of the new one, or those that it had before. -/
theorem mem_parametersOf (own : id ∈ s'.parametersOf i) :
    i = j ∧ id ∈ f.cells ∨ id ∈ s.parametersOf i := by
  cases found : s'.functions[i]? with
  | none =>
    rw [parametersOf, found] at own
    cases own
  | some g =>
    rw [parametersOf_eq found, UserFunction.cells] at own
    rcases defines.function_cases found with ⟨here, same⟩ | ⟨-, h, old, same⟩
    · rw [(UserFunction.eq_of_undepended same).1] at own
      exact .inl ⟨here, own⟩
    · rw [(UserFunction.eq_of_undepended same).1] at own
      exact .inr (parametersOf_eq old ▸ own)

theorem isPrivate (isPrivate : s.IsPrivate id) : s'.IsPrivate id where
  exists_ := defines.size ▸ isPrivate.exists_
  unnamed := defines.cellNames ▸ isPrivate.unnamed

end Defines

/-- A function that is put in its place is as pure as the others. -/
theorem HasPureFunctions.settle (pure : s.HasPureFunctions) (informed : s.Informed)
    (suits : s.Suits f) : (s.settle f).2.HasPureFunctions := by
  obtain ⟨j, s', -, defines, settled⟩ := informed.exists_settled suits.toFits
  rw [settled]
  have placed : s'.HasPureFunctions := by
    refine ⟨fun i id own => defines.isPrivate ?_, fun i t within => ?_, fun i code kept => ?_⟩
    · rcases defines.mem_parametersOf own with ⟨-, new⟩ | old
      · exact suits.hidden id new
      · exact pure.hidden i id old
    · by_cases here : i = j
      · subst here
        rw [defines.tokensOf_eq] at within
        exact suits.still t within
      · rw [defines.places.tokensOf _ fun same => here (Dependent.function.inj same)] at within
        exact pure.still i t within
    · exact pure.codes i code (defines.codesOf_subset suits.code kept)
  exact (Step.evolves (s'.evolves_forgetFrom _)).hasPureFunctions placed

/-- The parameters of a new function are no variables. -/
theorem isVariable_settle (informed : s.Informed) (suits : s.Suits f) (other : id ∉ f.cells)
    (isVariable : s.IsVariable id) : (s.settle f).2.IsVariable id := by
  obtain ⟨j, s', -, defines, settled⟩ := informed.exists_settled suits.toFits
  rw [settled]
  refine (Step.evolves (s'.evolves_forgetFrom _)).later.isVariable ⟨?_, fun i own => ?_⟩
  · rw [defines.size]
    exact isVariable.exists_
  · rcases defines.mem_parametersOf own with ⟨-, new⟩ | old
    · exact other new
    · exact isVariable.free i old

namespace Advances

variable (advances : s.Advances s') (informed : s.Informed)

include advances informed

theorem hasPureFunctions (pure : s.HasPureFunctions) : s'.HasPureFunctions := by
  cases advances with
  | read reads => exact reads.hasPureFunctions pure
  | @define s₁ f reads suits fresh isPlotting =>
    have settled := (reads.hasPureFunctions pure).settle (reads.informed informed) suits
    exact (Step.plotting _ isPlotting).hasPureFunctions settled

theorem isVariable (isVariable : s.IsVariable id) : s'.IsVariable id := by
  cases advances with
  | read reads => exact reads.later.isVariable isVariable
  | @define s₁ f reads suits fresh isPlotting =>
    have old : id ∉ f.cells := fun own => absurd isVariable.exists_ (Nat.not_lt.2 (fresh id own))
    have settled := isVariable_settle (reads.informed informed) suits old
      (reads.later.isVariable isVariable)
    exact (Step.plotting _ isPlotting).later.isVariable settled

end Advances

/-! ## Requests -/

/-- What a session becomes that answers requests, and in which what belongs to no text is set from
outside. -/
inductive Becomes (s₀ : Session) : Session → Prop where
  | start : Becomes s₀ s₀
  | request {s : Session} (r : Request) (before : Becomes s₀ s) : Becomes s₀ (s.after r)
  | set {s : Session} (settings : Settings) (random : RandomSource) (input : List String)
    (isEnabled isCancelled isPlotting : Bool) (before : Becomes s₀ s) :
    Becomes s₀ { s with settings, random, input, isEnabled, isCancelled, isPlotting }

theorem step_set (s : Session) (settings : Settings) (random : RandomSource) (input : List String)
    (isEnabled isCancelled isPlotting : Bool) :
    s.Step { s with settings, random, input, isEnabled, isCancelled, isPlotting } :=
  .of_eq rfl rfl rfl rfl rfl

/-- A session without functions. -/
theorem hasPureFunctions_of_nil (functions : s.functions = #[]) : s.HasPureFunctions := by
  refine ⟨fun i => ?_, fun i => ?_, fun i => ?_⟩
  · simp [parametersOf, functions]
  · simp [tokensOf, functions]
  · simp [codesOf, functions]

/-- A session is cleared of functions, and then of nothing else. -/
theorem reads_clear (s : Session) :
    ∃ s' : Session, s'.functions = #[] ∧ s'.cells = s.cells ∧ s'.Reads s.clear :=
  ⟨{ s with blocks := #[], functions := #[], functionNames := [], units := [], cellNames := [] },
    rfl, rfl, reads_constants _ (constants s.settings.complex)⟩

theorem hasPureFunctions_clear (s : Session) : s.clear.HasPureFunctions := by
  obtain ⟨s', functions, -, reads⟩ := s.reads_clear
  exact reads.hasPureFunctions (hasPureFunctions_of_nil functions)

theorem isVariable_clear (isVariable : s.IsVariable id) : s.clear.IsVariable id := by
  obtain ⟨s', functions, cells, reads⟩ := s.reads_clear
  refine reads.later.isVariable ⟨?_, fun i => ?_⟩
  · rw [cells]
    exact isVariable.exists_
  · simp [parametersOf, functions]

/-- An answer keeps functions pure, and no variable becomes a parameter. -/
theorem Informed.pure_after (informed : s.Informed) (r : Request) :
    (s.HasPureFunctions → (s.after r).HasPureFunctions) ∧
      ∀ id, s.IsVariable id → (s.after r).IsVariable id := by
  by_cases clears : r = .clear
  · subst clears
    exact ⟨fun _ => s.hasPureFunctions_clear, fun _ => isVariable_clear⟩
  · have advances := informed.advances clears
    exact ⟨advances.hasPureFunctions informed, fun _ => advances.isVariable informed⟩

namespace Becomes

variable (becomes : s₀.Becomes s)

include becomes

theorem informed (informed : s₀.Informed) : s.Informed := by
  induction becomes with
  | start => exact informed
  | request r _ ih => exact (ih.after r).informed
  | set settings random input isEnabled isCancelled isPlotting _ ih =>
    exact (step_set _ settings random input isEnabled isCancelled isPlotting).read.informed ih

/-- A session that answers requests keeps its functions pure. -/
theorem hasPureFunctions (informed : s₀.Informed) (pure : s₀.HasPureFunctions) :
    s.HasPureFunctions := by
  induction becomes with
  | start => exact pure
  | request r becomes ih => exact ((becomes.informed informed).pure_after r).1 ih
  | set settings random input isEnabled isCancelled isPlotting _ ih =>
    exact (step_set _ settings random input isEnabled isCancelled isPlotting).hasPureFunctions ih

/-- What is a variable once is never a parameter, even after the session was cleared. -/
theorem isVariable (informed : s₀.Informed) (isVariable : s₀.IsVariable id) :
    s.IsVariable id := by
  induction becomes with
  | start => exact isVariable
  | request r becomes ih => exact ((becomes.informed informed).pure_after r).2 id ih
  | set settings random input isEnabled isCancelled isPlotting _ ih =>
    exact (step_set _ settings random input isEnabled isCancelled isPlotting).later.isVariable ih

end Becomes

end Session

end UnitCalc
