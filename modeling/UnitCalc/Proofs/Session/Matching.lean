/-
# Matching computations

Two computations match in some sessions when they cannot be told apart there: they end with the
same value or error and with the same session, which is one of these sessions again. A
computation that matches itself stays among the sessions, so one set of rules serves for two
computations that are compared and for one that keeps an invariant. Unless it is lenient, a match
also says that no function and no block is found to be missing.

## Main definitions

* `SessionM.Matches P lenient x y`: the computations `x` and `y` match in the sessions of `P`.
-/

import UnitCalc.Proofs.Calculator.Failures
import UnitCalc.Proofs.Session.Outcome

namespace UnitCalc.SessionM

variable {α β : Type} {P : Session → Prop} {lenient : Prop}

/-- From the sessions of `P` both computations have the same outcome, which stays in `P`, and is no
error about something missing unless `lenient`. -/
def Matches (P : Session → Prop) (lenient : Prop) (x y : SessionM α) : Prop :=
  ∀ s, P s → outcome x s = outcome y s ∧ P (outcome x s).2 ∧
    Finds lenient (fun _ => True) (outcome x s).1

namespace Matches

variable {x y x' y' : SessionM α} {f g : α → SessionM β}

theorem pure (a : α) : Matches P lenient (Pure.pure a) (Pure.pure a) :=
  fun _ holds => ⟨rfl, holds, trivial⟩

theorem throw {e : CalcError} (known : e.isMissing = true → lenient) :
    Matches P lenient (MonadExcept.throw e : SessionM α) (MonadExcept.throw e) :=
  fun _ holds => ⟨rfl, holds, known⟩

theorem result {r : Except CalcError α} (finds : Finds lenient (fun _ => True) r) :
    Matches P lenient (ofExcept r : SessionM α) (ofExcept r) := by
  intro s holds
  rw [outcome_ofExcept]
  exact ⟨rfl, holds, finds⟩

theorem read {f : Session → Except CalcError α} (finds : ∀ s, Finds lenient (fun _ => True) (f s)) :
    Matches P lenient (SessionM.read f) (SessionM.read f) := by
  intro s holds
  rw [outcome_read]
  exact ⟨rfl, holds, finds s⟩

/-- A change that `P` survives. -/
theorem modify {f : Session → Session} (survives : ∀ s, P s → P (f s)) :
    Matches P lenient (modify f : SessionM Unit) (modify f) :=
  fun s holds => ⟨rfl, survives s holds, trivial⟩

/-- What goes on after a value has to match for the values that there can be. -/
theorem bind_of {Q : α → Prop} (first : Matches P lenient x y)
    (value : ∀ s, P s → ∀ a, (outcome x s).1 = .ok a → Q a)
    (second : ∀ a, Q a → Matches P lenient (f a) (g a)) :
    Matches P lenient (x >>= f) (y >>= g) := by
  intro s holds
  obtain ⟨same, kept, finds⟩ := first s holds
  have possible := value s holds
  rw [outcome_bind, outcome_bind, ← same]
  cases ended : outcome x s with
  | mk r s' =>
    rw [ended] at kept possible finds
    cases r with
    | error e => exact ⟨rfl, kept, finds⟩
    | ok a => exact second a (possible a rfl) s' kept

theorem bind (first : Matches P lenient x y) (second : ∀ a, Matches P lenient (f a) (g a)) :
    Matches P lenient (x >>= f) (y >>= g) :=
  first.bind_of (Q := fun _ => True) (fun _ _ _ _ => trivial) fun a _ => second a

/-- What goes on with the session has to match for the sessions that there can be. -/
theorem get_bind {f g : Session → SessionM β} (second : ∀ s, P s → Matches P lenient (f s) (g s)) :
    Matches P lenient (get >>= f) (get >>= g) := by
  intro s holds
  rw [outcome_bind_ok (outcome_get s), outcome_bind_ok (outcome_get s)]
  exact second s holds s holds

theorem ite {c : Prop} [Decidable c] (first : Matches P lenient x y)
    (second : Matches P lenient x' y') :
    Matches P lenient (if c then x else x') (if c then y else y') := by
  split
  · exact first
  · exact second

/-- A check that stops a computation. -/
theorem guard {c : Prop} [Decidable c] {e : CalcError} {k k' : PUnit → SessionM α}
    (known : e.isMissing = true → lenient) (behind : Matches P lenient (k ⟨⟩) (k' ⟨⟩)) :
    Matches P lenient (if c then MonadExcept.throw e >>= k else k ⟨⟩)
      (if c then MonadExcept.throw e >>= k' else k' ⟨⟩) :=
  ite (bind (throw known) fun ⟨⟩ => behind) behind

theorem tryCatch {handle handle' : CalcError → SessionM α} (first : Matches P lenient x y)
    (handled : ∀ e : CalcError, (e.isMissing = true → lenient) →
      Matches P lenient (handle e) (handle' e)) :
    Matches P lenient (MonadExcept.tryCatch x handle) (MonadExcept.tryCatch y handle') := by
  intro s holds
  obtain ⟨same, kept, finds⟩ := first s holds
  rw [outcome_tryCatch, outcome_tryCatch, ← same]
  cases ended : outcome x s with
  | mk r s' =>
    rw [ended] at kept finds
    cases r with
    | ok a => exact ⟨rfl, kept, trivial⟩
    | error e => exact handled e finds s' kept

end Matches

end UnitCalc.SessionM
