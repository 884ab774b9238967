/-
# Parallel computations

Two computations run in parallel when from related sessions they end in related sessions, with the
same error or with values that are related. When related sessions are the same, and related values
too, the computations are one.

## Main definitions

* `SessionM.Agree R`: two results are the same error, or values that `R` relates.
* `SessionM.Parallel J R x y`: from sessions related by `J` the results of `x` and `y` agree.
-/

import UnitCalc.Proofs.Session.Outcome

namespace UnitCalc.SessionM

variable {α β γ δ : Type} {R : α → β → Prop} {S : γ → δ → Prop}

/-- The same error, or values that are related. -/
inductive Agree (R : α → β → Prop) : Except CalcError α → Except CalcError β → Prop
  | ok {a : α} {b : β} (related : R a b) : Agree R (.ok a) (.ok b)
  | error (e : CalcError) : Agree R (.error e) (.error e)

namespace Agree

variable {r : Except CalcError α} {r' : Except CalcError β}

theorem bind {f : α → Except CalcError γ} {g : β → Except CalcError δ} (agree : Agree R r r')
    (next : ∀ a b, R a b → Agree S (f a) (g b)) : Agree S (r >>= f) (r' >>= g) := by
  cases agree with
  | ok related => exact next _ _ related
  | error e => exact .error e

/-- A result agrees with itself. -/
theorem self {R : α → α → Prop} (r : Except CalcError α) (related : ∀ a, r = .ok a → R a a) :
    Agree R r r := by
  cases r with
  | ok a => exact .ok (related a rfl)
  | error e => exact .error e

/-- Results that are the same in part are the same error, or values that are the same in part. -/
theorem of_map {f : α → γ} {g : β → γ} (same : r.map f = r'.map g) :
    Agree (fun a b => f a = g b) r r' := by
  cases r with
  | ok a =>
    cases r' with
    | ok b => exact .ok (Except.ok.inj same)
    | error e => cases same
  | error e =>
    cases r' with
    | ok b => cases same
    | error e' =>
      cases same
      exact .error e

theorem eq {r r' : Except CalcError α} (agree : Agree Eq r r') : r = r' := by
  cases agree with
  | ok same => rw [same]
  | error e => rfl

end Agree

/-- From related sessions two computations end in related ones, and their results agree. -/
def Parallel (J : Session → Session → Prop) (R : α → β → Prop) (x : SessionM α) (y : SessionM β) :
    Prop :=
  ∀ s s', J s s' → J (outcome x s).2 (outcome y s').2 ∧ Agree R (outcome x s).1 (outcome y s').1

namespace Parallel

variable {J : Session → Session → Prop} {x : SessionM α} {y : SessionM β} {f : α → SessionM γ}
  {g : β → SessionM δ}

theorem pure {a : α} {b : β} (related : R a b) : Parallel J R (Pure.pure a) (Pure.pure b) :=
  fun _ _ same => ⟨same, .ok related⟩

theorem throw (e : CalcError) :
    Parallel J R (MonadExcept.throw e : SessionM α) (MonadExcept.throw e) :=
  fun _ _ same => ⟨same, .error e⟩

theorem result {r : Except CalcError α} {r' : Except CalcError β} (agree : Agree R r r') :
    Parallel J R (ofExcept r) (ofExcept r') := by
  intro s s' same
  rw [outcome_ofExcept, outcome_ofExcept]
  exact ⟨same, agree⟩

theorem read {f : Session → Except CalcError α} {g : Session → Except CalcError β}
    (agree : ∀ s s', J s s' → Agree R (f s) (g s')) :
    Parallel J R (SessionM.read f) (SessionM.read g) := by
  intro s s' same
  rw [outcome_read, outcome_read]
  exact ⟨same, agree s s' same⟩

/-- Something is read from one session. -/
theorem readHere {f : Session → Except CalcError α} {g : Session → Except CalcError β}
    (agree : ∀ s, Agree R (f s) (g s)) : Parallel Eq R (SessionM.read f) (SessionM.read g) := by
  refine read ?_
  rintro s - rfl
  exact agree s

theorem get : Parallel J J (MonadState.get : SessionM Session) MonadState.get :=
  fun _ _ same => ⟨same, .ok same⟩

theorem set {s s' : Session} (related : J s s') :
    Parallel J Eq (MonadState.set s : SessionM PUnit) (MonadState.set s') :=
  fun _ _ _ => ⟨related, .ok rfl⟩

theorem modify {f g : Session → Session} (keeps : ∀ s s', J s s' → J (f s) (g s')) :
    Parallel J Eq (modify f : SessionM PUnit) (modify g) :=
  fun s s' same => ⟨keeps s s' same, .ok rfl⟩

theorem bind (first : Parallel J R x y) (second : ∀ a b, R a b → Parallel J S (f a) (g b)) :
    Parallel J S (x >>= f) (y >>= g) := by
  intro s s' same
  obtain ⟨later, agree⟩ := first s s' same
  rw [outcome_bind, outcome_bind]
  cases ended : outcome x s with
  | mk r s₁ =>
    cases ended' : outcome y s' with
    | mk r' s₂ =>
      rw [ended, ended'] at later agree
      cases agree with
      | ok related => exact second _ _ related s₁ s₂ later
      | error e => exact ⟨later, .error e⟩

theorem mono (parallel : Parallel J R x y) {R' : α → β → Prop} (wider : ∀ a b, R a b → R' a b) :
    Parallel J R' x y := by
  intro s s' same
  obtain ⟨later, agree⟩ := parallel s s' same
  refine ⟨later, ?_⟩
  generalize (outcome x s).1 = r at agree ⊢
  generalize (outcome y s').1 = r' at agree ⊢
  cases agree with
  | ok related => exact .ok (wider _ _ related)
  | error e => exact .error e

/-- What is known of the values of the first computation. -/
theorem left {P : α → Prop} (parallel : Parallel J R x y)
    (holds : ∀ s a s', outcome x s = (.ok a, s') → P a) :
    Parallel J (fun a b => R a b ∧ P a) x y := by
  intro s s' same
  obtain ⟨later, agree⟩ := parallel s s' same
  refine ⟨later, ?_⟩
  cases ended : outcome x s with
  | mk r s₁ =>
    rw [ended] at agree
    generalize (outcome y s').1 = r' at agree ⊢
    cases agree with
    | ok related => exact .ok ⟨related, holds s _ s₁ ended⟩
    | error e => exact .error e

/-- A computation is parallel to itself. -/
theorem refl (x : SessionM α) : Parallel Eq Eq x x := by
  rintro s - rfl
  exact ⟨rfl, .self _ fun _ _ => rfl⟩

theorem eq {x y : SessionM α} (parallel : Parallel Eq Eq x y) : x = y :=
  funext fun s => Prod.ext (parallel s s rfl).2.eq (parallel s s rfl).1

end Parallel

end UnitCalc.SessionM
