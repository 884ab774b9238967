/-
# Outcomes of computations in a session

A computation in a session ends with a value or an error, and with a session. The outcome of a
composed computation is that of its parts, one after the other.

## Main definitions

* `SessionM.outcome` is the end of a computation.
* `SessionM.Yields`: in some sessions, a computation has this value and stays among them.
* `SessionM.Keeps`: in some sessions, a computation stays among them, whatever its value is.
-/

import UnitCalc.Session.Code

namespace UnitCalc.SessionM

variable {α β : Type}

/-- What a computation ends with. -/
def outcome (x : SessionM α) (s : Session) : Except CalcError α × Session :=
  x s

@[simp]
theorem outcome_pure (a : α) (s : Session) : outcome (pure a) s = (.ok a, s) := rfl

@[simp]
theorem outcome_throw (e : CalcError) (s : Session) :
    outcome (throw e : SessionM α) s = (.error e, s) := rfl

@[simp]
theorem outcome_get (s : Session) : outcome get s = (.ok s, s) := rfl

@[simp]
theorem outcome_modify (f : Session → Session) (s : Session) :
    outcome (modify f) s = (.ok ⟨⟩, f s) := rfl

@[simp]
theorem outcome_modifyGet (f : Session → α × Session) (s : Session) :
    outcome (modifyGet f) s = (.ok (f s).1, (f s).2) := rfl

@[simp]
theorem outcome_ofExcept (r : Except CalcError α) (s : Session) :
    outcome (ofExcept r) s = (r, s) := by
  cases r <;> rfl

theorem outcome_bind (x : SessionM α) (f : α → SessionM β) (s : Session) :
    outcome (x >>= f) s = match outcome x s with
      | (.ok a, s') => outcome (f a) s'
      | (.error e, s') => (.error e, s') := by
  have opened : outcome (x >>= f) s = ExceptT.bindCont f (outcome x s).1 (outcome x s).2 := rfl
  rw [opened]
  cases outcome x s with
  | mk r s' => cases r <;> rfl

/-- The first part of a computation ends well. -/
theorem outcome_bind_ok {x : SessionM α} {f : α → SessionM β} {s s' : Session} {a : α}
    (first : outcome x s = (.ok a, s')) : outcome (x >>= f) s = outcome (f a) s' := by
  rw [outcome_bind, first]

theorem outcome_bind_error {x : SessionM α} {f : α → SessionM β} {s s' : Session} {e : CalcError}
    (first : outcome x s = (.error e, s')) : outcome (x >>= f) s = (.error e, s') := by
  rw [outcome_bind, first]

theorem outcome_tryCatch (x : SessionM α) (handle : CalcError → SessionM α) (s : Session) :
    outcome (tryCatch x handle) s = match outcome x s with
      | (.ok a, s') => (.ok a, s')
      | (.error e, s') => outcome (handle e) s' := by
  have opened : (tryCatch x handle : SessionM α) = ExceptT.tryCatch x handle := rfl
  rw [opened]
  unfold outcome ExceptT.tryCatch
  simp only [ExceptT.mk, bind, StateT.bind]
  cases x s with
  | mk r s' => cases r <;> rfl

/-- When errors are not recovered from, what ends well does so by itself. -/
theorem of_tryCatch_ok {x : SessionM α} {handle : CalcError → SessionM α} {s final : Session} {a : α}
    (fails : ∀ e s b, (outcome (handle e) s).1 ≠ .ok b)
    (ended : outcome (tryCatch x handle) s = (.ok a, final)) : outcome x s = (.ok a, final) := by
  rw [outcome_tryCatch] at ended
  cases ran : outcome x s with
  | mk r s' =>
    rw [ran] at ended
    cases r with
    | ok b => exact ended
    | error e => exact absurd (congrArg Prod.fst ended) (fails e s' a)

/-- A composed computation that ends well consists of parts that do. -/
theorem exists_of_bind_ok {x : SessionM α} {f : α → SessionM β} {s final : Session} {b : β}
    (ended : outcome (x >>= f) s = (.ok b, final)) :
    ∃ a s', outcome x s = (.ok a, s') ∧ outcome (f a) s' = (.ok b, final) := by
  rw [outcome_bind] at ended
  split at ended
  · next a s' first => exact ⟨a, s', first, ended⟩
  · cases ended

/-- A result that a computation goes on with. -/
theorem exists_of_ofExcept_ok {r : Except CalcError α} {f : α → SessionM β} {s final : Session}
    {b : β} (ended : outcome (ofExcept r >>= f) s = (.ok b, final)) :
    ∃ a, r = .ok a ∧ outcome (f a) s = (.ok b, final) := by
  obtain ⟨a, s', first, ended⟩ := exists_of_bind_ok ended
  rw [outcome_ofExcept] at first
  cases first
  exact ⟨a, rfl, ended⟩

/-- A computation that was seen to end well. -/
theorem exists_of_toOption {x : SessionM α} {s : Session} {f : α → β} {b : β}
    (seen : (outcome x s).1.toOption.map f = some b) :
    ∃ a s', outcome x s = (.ok a, s') ∧ f a = b := by
  cases ended : outcome x s with
  | mk r s' =>
    rw [ended] at seen
    cases r with
    | error e => cases seen
    | ok a => exact ⟨a, s', rfl, Option.some.inj seen⟩

@[simp]
theorem outcome_read (f : Session → Except CalcError α) (s : Session) :
    outcome (read f) s = (f s, s) := by
  rw [read, outcome_bind_ok (outcome_get s), outcome_ofExcept]

/-- In the sessions of `J`, a computation has this value and ends in a session of `J`. -/
def Yields (J : Session → Prop) (x : SessionM α) (a : α) : Prop :=
  ∀ s, J s → ∃ s', outcome x s = (.ok a, s') ∧ J s'

namespace Yields

variable {J : Session → Prop} {x : SessionM α} {f : α → SessionM β} {a : α} {b : β}

theorem pure (a : α) : Yields J (Pure.pure a) a :=
  fun s holds => ⟨s, rfl, holds⟩

theorem bind (first : Yields J x a) (second : Yields J (f a) b) : Yields J (x >>= f) b := by
  intro s holds
  obtain ⟨s', ended, holds'⟩ := first s holds
  rw [outcome_bind_ok ended]
  exact second s' holds'

/-- A part of the session that is the same in all sessions of `J`. -/
theorem read {g : Session → Except CalcError α} (same : ∀ s, J s → g s = .ok a) :
    Yields J (SessionM.read g) a :=
  fun s holds => ⟨s, by rw [outcome_read, same s holds], holds⟩

end Yields

/-- From the sessions of `J`, a computation ends in one of them, and its value is in `P`. -/
def Keeps (J : Session → Prop) (P : α → Prop) (x : SessionM α) : Prop :=
  ∀ s, J s → J (outcome x s).2 ∧ ∀ a, (outcome x s).1 = .ok a → P a

namespace Keeps

variable {J : Session → Prop} {P : α → Prop} {Q : β → Prop} {x : SessionM α} {f : α → SessionM β}

theorem pure {a : α} (holds : P a) : Keeps J P (Pure.pure a) :=
  fun _ kept => ⟨kept, fun _ same => Except.ok.inj same ▸ holds⟩

theorem throw (e : CalcError) : Keeps J P (MonadExcept.throw e) :=
  fun _ kept => ⟨kept, nofun⟩

theorem bind (first : Keeps J P x) (second : ∀ a, P a → Keeps J Q (f a)) :
    Keeps J Q (x >>= f) := by
  intro s kept
  obtain ⟨kept', holds⟩ := first s kept
  rw [outcome_bind]
  cases ended : outcome x s with
  | mk r s' =>
    rw [ended] at kept' holds
    cases r with
    | error e => exact ⟨kept', nofun⟩
    | ok a => exact second a (holds a rfl) s' kept'

/-- A part of the session that has a property in all sessions of `J`. -/
theorem read {g : Session → Except CalcError α} (holds : ∀ s, J s → ∀ a, g s = .ok a → P a) :
    Keeps J P (SessionM.read g) := by
  intro s kept
  rw [outcome_read]
  exact ⟨kept, holds s kept⟩

end Keeps

end UnitCalc.SessionM
