/-
# What functions leave alone

Functions assign nothing, and what they are called with is stored in cells of their own. The one
thing that could be changed from inside a function is the place that a block leaves an extreme
value in. So a function that enters no block changes no variable and no unit, whether it ends with a
value or an error.

## Main definitions

* `Session.Untouched`: a session evolved from another one, and has its variables and units.
* `Session.Avoids`: what is entered is a function that enters no block.

## Main results

* `Session.stays_untouched`: the evaluation of pure functions touches nothing.
* `Session.Informed.match_untouched`: calls that enter no block leave variables and units alone.
-/

import UnitCalc.Proofs.Session.Pure
import UnitCalc.Proofs.Session.Reentry

namespace UnitCalc

open Relation (ReflTransGen)
open SessionM

namespace Session

variable {s s' s₀ : Session} {i : Nat} {id : CellId} {d : Dependent} {e : Entry}

/-- A session that evolved from another one, in which variables and units are the same. -/
structure Untouched (s₀ s : Session) : Prop where
  evolves : s₀.Evolves s
  units : s.units = s₀.units
  cell : ∀ id, s₀.IsVariable id → s.cell id = s₀.cell id

namespace Untouched

theorem refl (s : Session) : s.Untouched s :=
  ⟨.refl, rfl, fun _ _ => rfl⟩

variable (untouched : s₀.Untouched s)

include untouched

theorem tail (step : s.EvalStep s') (cells : s'.cells = s.cells) (units : s'.units = s.units) :
    s₀.Untouched s' where
  evolves := untouched.evolves.tail step
  units := units.trans untouched.units
  cell id isVariable := by
    rw [cell_eq, cells, ← cell_eq]
    exact untouched.cell id isVariable

/-- Parameters are no variables. -/
theorem storeAll {cells : List CellId} (own : ∀ id ∈ cells, ¬ s₀.IsVariable id)
    (args : List Value) : s₀.Untouched (s.storeAll cells args) := by
  have after := s.afterCalls_storeAll cells args
  refine ⟨untouched.evolves.trans (s.evolves_storeAll cells args),
    after.units.trans untouched.units, fun id isVariable => ?_⟩
  rw [after.cells id fun within => own id within isVariable]
  exact untouched.cell id isVariable

end Untouched

/-- The evaluation of pure functions touches nothing. -/
theorem stays_untouched (pure : s₀.HasPureFunctions) : s₀.Stays s₀.Untouched where
  evolves _ := Untouched.evolves
  quiet _ _ untouched step cells units := untouched.tail step cells units
  arguments s s' i f args untouched found untouched' := by
    have same := parametersOf_congr (untouched.evolves.runsTo.definitionOf_eq i)
    refine untouched'.storeAll (fun id own isVariable => isVariable.free i ?_) args
    rwa [← same.1, parametersOf_eq found]
  codes s i code untouched known := by
    left
    rcases known with kept | compiles
    · rcases untouched.evolves.codesOf code kept with old | compiles
      · exact pure.codes i code old
      · exact pure.isPure_of_compiles compiles
    · rw [Compiles, untouched.evolves.runsTo.tokensOf_eq] at compiles
      exact pure.isPure_of_compiles compiles

/-! ## Functions without blocks -/

/-- The evaluation of a function enters no block. -/
def EntersNoBlock (s : Session) (i : Nat) : Prop :=
  s.isRefused (.function i) = false → ¬ s.Reaches (fun t => t.blockIndex?.isSome) (.function i)

/-- What is entered is a function that enters no block. -/
def Avoids (s : Session) : Entry → Prop
  | .call i _ => s.EntersNoBlock i
  | .block _ => False

/-- A function that enters no block only uses functions that do not either. -/
theorem Avoids.of_uses (avoids : s.EntersNoBlock i) (uses : s.Uses (.function i) e.dependent) :
    s.Avoids e := by
  have noBlock := avoids uses.2
  cases e with
  | call j count => exact fun open_ reaches => noBlock (.through uses.1 open_ reaches)
  | block j =>
    obtain ⟨t, within, refers⟩ := exists_mem_of_references uses.1
    refine noBlock (.mention within ?_)
    cases t with
    | block j' name => rfl
    | call index => cases index <;> cases refers
    | _ => cases refers

theorem Confined.mono {lenient : Prop} {callee wider : Entry → Prop}
    (confined : s.Confined lenient callee d) (more : ∀ e, callee e → wider e) :
    s.Confined lenient wider d where
  known := confined.known
  entries open_ e within := more e (confined.entries open_ e within)
  defined := confined.defined
  codes open_ code kept := (confined.codes open_ code kept).mono more

theorem Informed.confined_avoids (informed : s.Informed) (avoids : s.EntersNoBlock i) :
    s.Confined True s.Avoids (.function i) :=
  (informed.confined_uses (.function i)).mono fun _ => Avoids.of_uses avoids

/-- Calls that enter no block leave variables and units alone, however deeply they are nested. -/
theorem Informed.match_untouched (informed : s.Informed) (pure : s.HasPureFunctions)
    (depth : Nat) : (Calls.ofDepth depth).Match s.Untouched True s.Avoids (.ofDepth depth) := by
  induction depth with
  | zero => exact ⟨fun _ _ _ => .throw nofun, fun _ _ => .throw nofun⟩
  | succ depth ih =>
    refine ⟨fun index args avoids => ?_, fun _ => False.elim⟩
    exact matches_evaluateCall (stays_untouched pure) (informed.confined_avoids avoids) ih args

end Session

end UnitCalc
