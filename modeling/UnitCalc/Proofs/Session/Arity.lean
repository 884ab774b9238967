/-
# Functions have parameters

The header of a definition names one parameter at least. So in all sessions that occur functions
have parameters, and every call takes an argument.

## Main definitions

* `Session.HasParameters`: all functions have parameters.

## Main results

* `Session.Occurs.hasParameters`: so it is in all sessions that occur.
* `Session.HasParameters.arity_pos`: calls take arguments.
-/

import UnitCalc.Proofs.Session.Pure

namespace UnitCalc

namespace Session

variable {s s' : Session} {f : UserFunction}

/-- All functions have parameters. -/
def HasParameters (s : Session) : Prop :=
  ∀ i : Nat, ∀ f ∈ s.functions[i]?, f.parameters ≠ []

namespace HasParameters

variable (all : s.HasParameters)

include all

theorem later (later : s.Later s') : s'.HasParameters := by
  intro i g found
  have same := later.definitionOf i
  rw [definitionOf, definitionOf, Option.mem_def.1 found, Option.map_some] at same
  obtain ⟨f, old, definition⟩ := Option.map_eq_some_iff.1 same.symm
  rw [← (UserFunction.eq_of_definition definition).1]
  exact all i f old

/-- A function that is put in its place has parameters as the others do. -/
theorem settle (informed : s.Informed) (suits : s.Suits f) : (s.settle f).2.HasParameters := by
  obtain ⟨j, s', -, defines, settled⟩ := informed.exists_settled suits.toFits
  rw [settled]
  have placed : s'.HasParameters := by
    intro i g found
    rcases defines.function_cases found with ⟨-, same⟩ | ⟨-, h, old, same⟩
    · rw [(UserFunction.eq_of_undepended same).1]
      exact suits.takes
    · rw [(UserFunction.eq_of_undepended same).1]
      exact all i h old
  exact placed.later (Step.evolves (s'.evolves_forgetFrom _)).later

theorem arity_pos {i count : Nat} (offers : s.Offers (.call i count)) : 0 < count := by
  obtain ⟨f, found, rfl⟩ := Option.map_eq_some_iff.1 offers
  exact List.length_pos_of_ne_nil (all i f found)

end HasParameters

theorem Advances.hasParameters (advances : s.Advances s') (informed : s.Informed)
    (all : s.HasParameters) : s'.HasParameters := by
  cases advances with
  | read reads => exact all.later reads.later
  | @define s₁ f reads suits fresh isPlotting =>
    have settled := (all.later reads.later).settle (reads.informed informed) suits
    exact settled.later (Step.plotting _ isPlotting).later

theorem hasParameters_clear (s : Session) : s.clear.HasParameters := by
  obtain ⟨s', functions, -, reads⟩ := s.reads_clear
  have nothing : s'.HasParameters := by
    intro i f found
    simp [functions] at found
  exact nothing.later reads.later

/-- In all sessions that occur functions have parameters. -/
theorem Occurs.hasParameters (occurs : s.Occurs) : s.HasParameters := by
  induction occurs with
  | start settings g => exact hasParameters_clear _
  | @request s r occurs ih =>
    by_cases clears : r = .clear
    · subst clears
      exact s.hasParameters_clear
    · exact (occurs.informed.advances clears).hasParameters occurs.informed ih
  | during step _ ih => exact ih.later step.later

end Session

end UnitCalc
