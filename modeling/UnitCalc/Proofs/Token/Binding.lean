/-
# Lists that are bound alike

Binding a list changes the orders of its operators and how its names are read, and no more. So
it keeps brackets, separators and calls, and a list that is well applied stays so.

## Main definitions

* `Token.Alike` relates a token to one that it may stand for.

## Main results

* `bind_alike`: a bound list consists of tokens that are alike.
* `Applied.alike`: lists alike to well applied ones are well applied.
-/

import Mathlib.Data.List.Forall2
import UnitCalc.Proofs.Token.Arguments
import UnitCalc.Token.Binding

namespace UnitCalc.Token

open List (Forall₂)

/-- A token in place of another one: operators may bind differently, and operands may be
read differently. -/
def Alike (t : Token) : Token → Prop
  | operator symbol _ => ∃ order, t = operator symbol order
  | negation _ => ∃ order, t = negation order
  | u => t.kind = .value ∧ u.kind = .value ∨ t = u

theorem Alike.refl (t : Token) : Alike t t := by
  cases t <;> simp [Alike]

theorem Alike.eq {t u : Token} (alike : Alike t u) (operand : u.kind ≠ .value)
    (operation : u.isOperation = false) : t = u := by
  cases u <;> simp [kind, isOperation] at operand operation <;> simpa [Alike, kind] using alike

theorem Alike.value {t u : Token} (alike : Alike t u) (value : u.kind = .value) :
    t.kind = .value := by
  cases u <;> simp [kind] at value <;> rcases alike with ⟨operand, -⟩ | rfl <;>
    first | exact operand | rfl

theorem Alike.trans {t u v : Token} (first : Alike t u) (second : Alike u v) : Alike t v := by
  cases v with
  | operator | negation =>
    obtain ⟨order, rfl⟩ := second
    exact first
  | _ =>
    rcases second with ⟨operand, value⟩ | rfl
    · exact .inl ⟨first.value operand, value⟩
    · exact first

/-- The part of a similar list in place of one in front of a closing bracket. -/
theorem alike_bracket {us inside ts : List Token}
    (alike : Forall₂ Alike us (inside ++ .closeBracket :: ts)) :
    ∃ inside' ts', us = inside' ++ .closeBracket :: ts' ∧ Forall₂ Alike inside' inside ∧
      Forall₂ Alike ts' ts := by
  induction inside generalizing us with
  | nil =>
    obtain _ | ⟨same, rest⟩ := alike
    exact ⟨[], _, by rw [same.eq (by simp [kind]) rfl]; rfl, .nil, rest⟩
  | cons t inside ih =>
    obtain _ | ⟨same, rest⟩ := alike
    obtain ⟨inside', ts', rfl, inner, outer⟩ := ih rest
    exact ⟨_ :: inside', ts', rfl, .cons same inner, outer⟩

/-- A list similar to a well applied one is well applied. -/
theorem Applied.alike {next : Expected} {n : Nat} {us ts : List Token}
    (applied : Applied next n ts) (alike : Forall₂ Alike us ts) : Applied next n us := by
  -- Brackets, separators and calls are the same in both lists, so both have the same structure.
  induction applied generalizing us with
  | done =>
    rw [List.forall₂_nil_right_iff.1 alike]
    exact .done
  | operand value _ ih =>
    obtain _ | ⟨same, rest⟩ := alike
    exact .operand (same.value value) (ih rest)
  | negation _ ih =>
    obtain _ | ⟨⟨order, rfl⟩, rest⟩ := alike
    exact .negation (ih rest)
  | operator _ ih =>
    obtain _ | ⟨⟨order, rfl⟩, rest⟩ := alike
    exact .operator (ih rest)
  | factorial _ ih =>
    obtain _ | ⟨same, rest⟩ := alike
    rw [same.eq (by simp [kind]) rfl]
    exact .factorial (ih rest)
  | separator _ ih =>
    obtain _ | ⟨same, rest⟩ := alike
    rw [same.eq (by simp [kind]) rfl]
    exact .separator (ih rest)
  | bracket _ _ ihBody ihRest =>
    obtain _ | ⟨same, rest⟩ := alike
    obtain ⟨inside, behind, rfl, inner, outer⟩ := alike_bracket rest
    rw [same.eq (by simp [kind]) rfl]
    exact .bracket (ihBody inner) (ihRest outer)
  | @call t _ _ _ _ call takes _ _ ihBody ihRest =>
    obtain _ | ⟨same, rest⟩ := alike
    obtain _ | ⟨same', rest⟩ := rest
    obtain ⟨inside, behind, rfl, inner, outer⟩ := alike_bracket rest
    have name : t.kind ≠ .value ∧ t.isOperation = false := by
      cases t <;> simp [kind, isOperation, Token.isCall] at call ⊢
    rw [same.eq name.1 name.2, same'.eq (by simp [kind]) rfl]
    exact .call call takes (ihBody inner) (ihRest outer)

/-- Lists that are alike have their separators in the same places. -/
theorem separatorsAt_alike {us ts : List Token} (alike : Forall₂ Alike us ts) (depth : Nat) :
    separatorsAt depth us = separatorsAt depth ts := by
  induction alike generalizing depth with
  | nil => rfl
  | @cons t u _ _ same _ ih =>
    cases u with
    | openBracket | closeBracket | separator =>
      rw [same.eq (by simp [kind]) rfl]
      simp only [separatorsAt, ih]
    | operator | negation =>
      obtain ⟨order, rfl⟩ := same
      exact ih depth
    | function | binaryFunction | multiFunction | conditional | call | factorial | blank =>
      rw [same.eq (by simp [kind]) rfl]
      exact ih depth
    | _ =>
      rw [separatorsAt_cons (.inl (same.value rfl)), separatorsAt_cons (.inl rfl)]
      exact ih depth

theorem ordered_alike (t : Token) : Alike t.ordered t := by
  cases t <;> simp [ordered, Alike]

theorem resolved_alike (isAssigned : CellId → Bool) (find : String → Option ValueUnit)
    (t : Token) : Alike (t.resolved isAssigned find) t := by
  cases t with
  | «variable» cell name =>
    simp only [resolved]
    repeat' split
    all_goals exact .inl ⟨rfl, rfl⟩
  | _ => exact Alike.refl _

theorem tightened_alike (t : Token) : Alike t.tightened t := by
  cases t with
  | operator symbol order =>
    simp only [tightened]
    split <;> exact ⟨_, rfl⟩
  | _ => exact Alike.refl _

section Forall₂

variable {R : Token → Token → Prop}

theorem forall₂_trans {us vs ws : List Token} (trans : ∀ {t u v}, R t u → R u v → R t v)
    (first : Forall₂ R us vs) (second : Forall₂ R vs ws) : Forall₂ R us ws := by
  induction first generalizing ws with
  | nil => exact second
  | cons same _ ih =>
    obtain _ | ⟨same', rest⟩ := second
    exact .cons (trans same same') (ih rest)

/-- Every token of a list is related to one of the other list. -/
theorem exists_of_forall₂ {us ts : List Token} (related : Forall₂ R us ts) {u : Token}
    (within : u ∈ us) : ∃ t ∈ ts, R u t := by
  induction related with
  | nil => cases within
  | @cons v t us ts first _ ih =>
    rcases List.mem_cons.1 within with rfl | within
    · exact ⟨t, List.mem_cons_self, first⟩
    · obtain ⟨t, found, same⟩ := ih within
      exact ⟨t, List.mem_cons_of_mem _ found, same⟩

theorem forall₂_tightenFrom (refl : ∀ t, R t t) (tightened : ∀ t : Token, R t.tightened t)
    (previous : Token) (inRun : Bool) (ts : List Token) :
    Forall₂ R (tightenFrom previous inRun ts) (previous :: ts) := by
  induction ts generalizing previous inRun with
  | nil => exact .cons (refl _) .nil
  | cons t ts ih =>
    simp only [tightenFrom]
    split
    · refine .cons ?_ (ih t true)
      split
      · exact tightened previous
      · exact refl _
    · exact .cons (refl _) (ih t _)

/-- Binding orders, resolves and tightens the tokens of a list. -/
theorem forall₂_bind {isAssigned : CellId → Bool} {find : Option (String → Option ValueUnit)}
    {ts : List Token} (place : Nat) (refl : ∀ t, R t t) (trans : ∀ {t u v}, R t u → R u v → R t v)
    (tightened : ∀ t : Token, R t.tightened t) (ordered : ∀ t : Token, R t.ordered t)
    (resolved : ∀ names ∈ find, ∀ t ∈ ts, R (t.ordered.resolved isAssigned names) t.ordered) :
    Forall₂ R (Token.bind isAssigned find place ts) ts := by
  have tight (us : List Token) : Forall₂ R (tighten us) us := by
    cases us with
    | nil => exact .nil
    | cons t us => exact forall₂_tightenFrom refl tightened t _ us
  refine forall₂_trans trans (tight _) (List.forall₂_of_length_eq_of_get (by simp) ?_)
  intro i _ within
  simp only [List.get_eq_getElem, List.getElem_mapIdx]
  cases find with
  | none => exact ordered _
  | some names =>
    simp only
    split
    · exact trans (resolved names rfl _ (List.getElem_mem within)) (ordered _)
    · exact ordered _

end Forall₂

/-- Binding changes how operators bind and how names are read. -/
theorem bind_alike (isAssigned : CellId → Bool) (find : Option (String → Option ValueUnit))
    (place : Nat) (ts : List Token) : Forall₂ Alike (Token.bind isAssigned find place ts) ts :=
  forall₂_bind place Alike.refl Alike.trans tightened_alike ordered_alike
    fun names _ t _ => resolved_alike isAssigned names t.ordered

end UnitCalc.Token
