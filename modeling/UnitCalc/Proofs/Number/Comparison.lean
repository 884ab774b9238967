/-
# Equality in single precision

Two numbers compare as equal when they are the same and not undefined, or when they are zeros of
different signs. So equality is symmetric and transitive, and numbers that are equal hold the same
whole number. It is not reflexive, since an undefined number differs from itself.

## Main results

* `compare_eq_iff`: which numbers compare as equal.
* `IsWhole.of_beq`: a number that is equal to a whole number is that whole number.
-/

import UnitCalc.Proofs.Number.Single

namespace UnitCalc.Number

open Float.Model
open Float.Model.UnpackedFloat (Sign)

variable {u v w : UnpackedFloat} {x y z : Float32} {a : ℤ}

/-- Two numbers are one, or both are zero. -/
inductive Alike : UnpackedFloat → UnpackedFloat → Prop
  | same {u : UnpackedFloat} (defined : u ≠ .notANumber) : Alike u u
  | zero (s t : Sign) : Alike (.zero s) (.zero t)

theorem Alike.symm (alike : Alike u v) : Alike v u := by
  cases alike with
  | same defined => exact .same defined
  | zero s t => exact .zero t s

theorem Alike.trans (first : Alike u v) (second : Alike v w) : Alike u w := by
  cases first with
  | same defined => exact second
  | zero s t =>
    cases second with
    | same defined => exact .zero s t
    | zero t r => exact .zero s r

/-- Only the same place and the same digits compare as equal. -/
theorem eq_of_then_eq {i j : ℤ} {m n : ℕ}
    (equal : (compare i j).then (compare m n) = .eq) : i = j ∧ m = n := by
  rw [Ordering.then_eq_eq] at equal
  exact ⟨compare_eq_iff_eq.1 equal.1, compare_eq_iff_eq.1 equal.2⟩

/-- Numbers compare as equal when they are the same, apart from the sign of a zero. -/
theorem compare_eq_iff : u.compare v = some .eq ↔ Alike u v := by
  constructor
  · intro equal
    cases u with
    | notANumber => cases equal
    | infinity s =>
      cases v with
      | infinity t => cases s <;> cases t <;> first | exact .same nofun | cases equal
      | notANumber | zero t | finite t n f positive => cases s <;> cases equal
    | zero s =>
      cases v with
      | zero t => exact .zero s t
      | notANumber => cases equal
      | infinity t | finite t n f positive => cases t <;> cases equal
    | finite s m e positive =>
      cases v with
      | finite t n f positive' =>
        -- The orders of negative numbers are turned around, and equality with them.
        cases s <;> cases t
        · have swapped : ((compare e f).then (compare m n)).swap = .eq := Option.some.inj equal
          obtain ⟨rfl, rfl⟩ := eq_of_then_eq (Ordering.swap_eq_eq.1 swapped)
          exact .same nofun
        · cases equal
        · cases equal
        · obtain ⟨rfl, rfl⟩ := eq_of_then_eq (Option.some.inj equal)
          exact .same nofun
      | notANumber => cases equal
      | infinity t => cases t <;> cases equal
      | zero t => cases s <;> cases equal
  · intro alike
    cases alike with
    | zero s t => rfl
    | same defined =>
      cases u with
      | notANumber => exact absurd rfl defined
      | zero s => rfl
      | infinity s => cases s <;> rfl
      | finite s m e positive =>
        have equal : (compare e e).then (compare m m) = .eq := by
          rw [compare_eq_iff_eq.2 rfl, compare_eq_iff_eq.2 rfl]
          rfl
        cases s
        · show some ((compare e e).then (compare m m)).swap = some .eq
          rw [equal]
          rfl
        · exact congrArg some equal

theorem beq_iff_alike : (x == y) = true ↔ Alike x.toModel.unpack y.toModel.unpack := by
  rw [← compare_eq_iff, ← beq_iff_eq (b := some Ordering.eq)]
  rfl

instance partialEquivBEqSingle : PartialEquivBEq Float32 where
  symm equal := beq_iff_alike.2 (beq_iff_alike.1 equal).symm
  trans first second := beq_iff_alike.2 ((beq_iff_alike.1 first).trans (beq_iff_alike.1 second))

theorem Holds.of_alike (alike : Alike u v) (holds : Holds v a) : Holds u a := by
  cases alike with
  | same defined => exact holds
  | zero s t =>
    cases holds with
    | zero => exact .zero s

/-- A number that is equal to a whole number is that whole number. -/
theorem IsWhole.of_beq (equal : (x == y) = true) (whole : IsWhole y a) : IsWhole x a :=
  Holds.of_alike (beq_iff_alike.1 equal) whole

end UnitCalc.Number
