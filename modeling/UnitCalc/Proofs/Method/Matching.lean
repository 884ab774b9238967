/-
# Numerical methods on matching objectives

A numerical method only touches the session through its objective. So when two objectives match
at every point, the methods that work on them match too, whichever points they visit.

## Main definitions

* `MethodM.Matches P lenient x y`: computations of methods that match, whatever the last unit was.

## Main results

* `Method.compute_matches`: every method keeps to what its objective does.
-/

import UnitCalc.Proofs.Method.Congruence
import UnitCalc.Proofs.Session.Matching

namespace UnitCalc

variable {α β : Type} {P : Session → Prop} {lenient : Prop}

namespace MethodM

variable {R E : Type}

/-- Two computations match when they go on from the same last unit. -/
def Matches (P : Session → Prop) (lenient : Prop) (x y : MethodM R E SessionM α) : Prop :=
  ∀ unit, SessionM.Matches P lenient (x.run unit) (y.run unit)

namespace Matches

variable {x y x' y' : MethodM R E SessionM α} {f g : α → MethodM R E SessionM β}

theorem pure (a : α) :
    Matches P lenient (Pure.pure a : MethodM R E SessionM α) (Pure.pure a) :=
  fun _ => .pure _

theorem throw {e : CalcError} (known : e.isMissing = true → lenient) :
    Matches P lenient (MonadExcept.throw e : MethodM R E SessionM α) (MonadExcept.throw e) :=
  fun _ _ holds => ⟨rfl, holds, known⟩

theorem bind (first : Matches P lenient x y) (second : ∀ a, Matches P lenient (f a) (g a)) :
    Matches P lenient (x >>= f) (y >>= g) :=
  fun unit => .bind (first unit) fun r => second r.1 r.2

theorem set (unit : Option (MeasureUnit R E)) :
    Matches P lenient (set unit : MethodM R E SessionM _) (MonadStateOf.set unit) :=
  fun _ => .pure _

theorem lift {x y : SessionM α} (alike : SessionM.Matches P lenient x y) :
    Matches P lenient (liftM x : MethodM R E SessionM α) (liftM y) :=
  fun _ => .bind alike fun _ => .pure _

/-- Matching is kept by all that a method does. -/
theorem congruence : FullCongruence (R := R) (E := E) (Matches P lenient) where
  pure := .pure
  bind := .bind
  set := .set
  get _ := .pure _
  throw known := .throw fun missing => by rw [known] at missing; cases missing

end Matches

end MethodM

open MethodM in
/-- Methods on matching objectives match. -/
theorem Method.compute_matches (method : Method) (p : Problem Float Float32 SessionM)
    {g : Float → SessionM Value} (alike : ∀ x, SessionM.Matches P lenient (p.objective x) (g x))
    (start stop target : Float) :
    Matches P lenient (method.compute p start stop target)
      (method.compute { p with objective := g } start stop target) := by
  refine method.compute_congr Matches.congruence p (fun x => ?_) start stop target
  exact .bind (.lift (alike x)) fun q => .bind (.set q.unit) fun _ => .pure q

end UnitCalc
