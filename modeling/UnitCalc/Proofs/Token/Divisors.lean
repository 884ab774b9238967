/-
# Brackets around divisors

Behind a sign of division a number with a unit stands for the quantity that the two make. Brackets
are put around it and around what follows, up to the next token that ends a divisor: an operator
other than a power, a closing bracket or a separator. A closing bracket ends the divisor also when
its opening bracket stands inside, and then the two are not partners any more. Otherwise all
brackets keep their partners.

## Main definitions

* `Token.bracketDivisors`: tokens with brackets around their divisors.
* `Token.divisors`: what the brackets enclose.
* `Token.Balanced`: each bracket has its partner.

## Main results

* `Token.bracketDivisors_ending`: divisors do not go beyond a token that ends them.
* `Token.bracketDivisors_pair`: brackets keep their partners when divisors open none.
-/

import Mathlib.Data.List.TakeWhile
import UnitCalc.Statement.Scan

namespace UnitCalc.Token

variable {t e : Token} {ts us before inside behind : List Token} {dividing : Bool}

/-- A number or an input, which takes a unit behind it. -/
def takesUnit : Token → Bool
  | constant _ _ | input _ => true
  | _ => false

/-- The product that joins a number to the unit behind it. -/
def isJoin : Token → Bool
  | operator _ order => order == unitSuffixOrder
  | _ => false

/-- A token that was written and ends a divisor. Signs do not end it, and neither do powers and the
products that join units. -/
def endsDivisor : Token → Bool
  | operator symbol order => order == unordered && symbol != '^'
  | closeBracket | separator => true
  | _ => false

/-- The last operator divides, behind the token. Brackets and separators begin anew. -/
def dividesAfter (dividing : Bool) : Token → Bool
  | operator symbol order => if order == unordered then Scan.isDivision symbol else dividing
  | openBracket | closeBracket | separator => false
  | _ => dividing

/-- A number in front of some tokens has a unit. -/
def isQuantity (t : Token) (rest : List Token) : Bool :=
  t.takesUnit && rest.head?.any isJoin

/-- What a divisor has behind its number. -/
def tailOfDivisor (rest : List Token) : List Token :=
  rest.takeWhile fun t => !t.endsDivisor

/-- What follows a divisor. -/
def behindDivisor (rest : List Token) : List Token :=
  rest.dropWhile fun t => !t.endsDivisor

theorem length_behindDivisor_le (rest : List Token) : (behindDivisor rest).length ≤ rest.length :=
  (List.dropWhile_sublist _).length_le

/-- Puts brackets around divisors. `dividing` tells that the last operator divides. -/
def bracketDivisors (dividing : Bool) : List Token → List Token
  | [] => []
  | t :: rest =>
    if dividing && t.isQuantity rest then
      .openBracket :: t :: (tailOfDivisor rest ++
        .closeBracket :: bracketDivisors false (behindDivisor rest))
    else t :: bracketDivisors (t.dividesAfter dividing) rest
termination_by ts => ts.length
decreasing_by
  · exact Nat.lt_succ_of_le (length_behindDivisor_le rest)
  · exact Nat.lt_succ_self _

/-- What the brackets around divisors enclose. -/
def divisors (dividing : Bool) : List Token → List (List Token)
  | [] => []
  | t :: rest =>
    if dividing && t.isQuantity rest then
      (t :: tailOfDivisor rest) :: divisors false (behindDivisor rest)
    else divisors (t.dividesAfter dividing) rest
termination_by ts => ts.length
decreasing_by
  · exact Nat.lt_succ_of_le (length_behindDivisor_le rest)
  · exact Nat.lt_succ_self _

@[simp]
theorem bracketDivisors_nil (dividing : Bool) : bracketDivisors dividing [] = [] := by
  rw [bracketDivisors]

theorem bracketDivisors_quantity (quantity : t.isQuantity ts = true) :
    bracketDivisors true (t :: ts) = .openBracket :: t :: (tailOfDivisor ts ++
      .closeBracket :: bracketDivisors false (behindDivisor ts)) := by
  rw [bracketDivisors, if_pos (by rw [quantity]; rfl)]

theorem bracketDivisors_cons (other : (dividing && t.isQuantity ts) = false) :
    bracketDivisors dividing (t :: ts) = t :: bracketDivisors (t.dividesAfter dividing) ts := by
  rw [bracketDivisors, if_neg (by rw [other]; decide)]

theorem divisors_quantity (quantity : t.isQuantity ts = true) :
    divisors true (t :: ts) = (t :: tailOfDivisor ts) :: divisors false (behindDivisor ts) := by
  rw [divisors, if_pos (by rw [quantity]; rfl)]

theorem divisors_cons (other : (dividing && t.isQuantity ts) = false) :
    divisors dividing (t :: ts) = divisors (t.dividesAfter dividing) ts := by
  rw [divisors, if_neg (by rw [other]; decide)]

theorem not_isQuantity (plain : t.takesUnit = false) (ts : List Token) :
    t.isQuantity ts = false := by
  rw [isQuantity, plain, Bool.false_and]

theorem isQuantity_append (quantity : t.isQuantity ts = true) (us : List Token) :
    t.isQuantity (ts ++ us) = true := by
  cases ts with
  | nil =>
    rw [isQuantity, List.head?_nil, Option.any_none, Bool.and_false] at quantity
    cases quantity
  | cons => exact quantity

/-! ## Numbers -/

theorem isJoin_of_takesUnit (takes : t.takesUnit = true) : t.isJoin = false := by
  cases t <;> first | rfl | cases takes

theorem endsDivisor_of_takesUnit (takes : t.takesUnit = true) : t.endsDivisor = false := by
  cases t <;> first | rfl | cases takes

theorem dividesAfter_of_takesUnit (takes : t.takesUnit = true) (dividing : Bool) :
    t.dividesAfter dividing = dividing := by
  cases t <;> first | rfl | cases takes

/-! ## Where divisors end -/

theorem takesUnit_of_endsDivisor (ends : e.endsDivisor = true) : e.takesUnit = false := by
  cases e <;> first | rfl | cases ends

theorem isJoin_of_endsDivisor (ends : e.endsDivisor = true) : e.isJoin = false := by
  cases e with
  | operator symbol order =>
    simp only [endsDivisor, Bool.and_eq_true, beq_iff_eq] at ends
    rw [isJoin, ends.1]
    rfl
  | _ => rfl

/-- What ends a divisor decides whether the next operand is one. -/
theorem dividesAfter_of_endsDivisor (ends : e.endsDivisor = true) (dividing : Bool) :
    e.dividesAfter dividing = e.dividesAfter false := by
  cases e with
  | operator symbol order =>
    simp only [endsDivisor, Bool.and_eq_true] at ends
    simp only [dividesAfter, if_pos ends.1]
  | closeBracket | separator => rfl
  | _ => cases ends

theorem bracketDivisors_ends (ends : e.endsDivisor = true) (dividing : Bool) (ts : List Token) :
    bracketDivisors dividing (e :: ts) = e :: bracketDivisors (e.dividesAfter false) ts := by
  have other := not_isQuantity (takesUnit_of_endsDivisor ends) ts
  rw [bracketDivisors_cons (by rw [other, Bool.and_false]), dividesAfter_of_endsDivisor ends]

theorem divisors_ends (ends : e.endsDivisor = true) (dividing : Bool) (ts : List Token) :
    divisors dividing (e :: ts) = divisors (e.dividesAfter false) ts := by
  have other := not_isQuantity (takesUnit_of_endsDivisor ends) ts
  rw [divisors_cons (by rw [other, Bool.and_false]), dividesAfter_of_endsDivisor ends]

theorem head?_any_append (plain : e.isJoin = false) (us ts : List Token) :
    (us ++ e :: ts).head?.any isJoin = us.head?.any isJoin := by
  cases us with
  | nil => exact plain
  | cons => rfl

/-- A divisor does not go beyond a token that ends it. -/
theorem tailOfDivisor_append (ends : e.endsDivisor = true) (us ts : List Token) :
    tailOfDivisor (us ++ e :: ts) = tailOfDivisor us ∧
      behindDivisor (us ++ e :: ts) = behindDivisor us ++ e :: ts := by
  induction us with
  | nil => simp [tailOfDivisor, behindDivisor, ends]
  | cons u us ih =>
    obtain ⟨tail, behind⟩ := ih
    simp only [tailOfDivisor, behindDivisor] at tail behind ⊢
    simp only [List.cons_append, List.takeWhile_cons, List.dropWhile_cons, tail, behind]
    cases u.endsDivisor <;> simp

theorem tailOfDivisor_eq (goes : ∀ t ∈ ts, t.endsDivisor = false) :
    tailOfDivisor ts = ts ∧ behindDivisor ts = [] := by
  rw [tailOfDivisor, behindDivisor, List.takeWhile_eq_self_iff, List.dropWhile_eq_nil_iff]
  simpa using goes

/-- In front of a token that ends divisors and behind it, they are those of two lists. -/
theorem bracketDivisors_ending (ends : e.endsDivisor = true) (dividing : Bool)
    (before behind : List Token) :
    bracketDivisors dividing (before ++ e :: behind) =
        bracketDivisors dividing before ++ bracketDivisors false (e :: behind) ∧
      divisors dividing (before ++ e :: behind) =
        divisors dividing before ++ divisors false (e :: behind) := by
  have same (t : Token) (rest : List Token) :
      t.isQuantity (rest ++ e :: behind) = t.isQuantity rest := by
    rw [isQuantity, isQuantity, head?_any_append (isJoin_of_endsDivisor ends)]
  induction dividing, before using bracketDivisors.induct with
  | case1 dividing =>
    rw [List.nil_append, bracketDivisors_ends ends, bracketDivisors_ends ends, divisors_ends ends,
      divisors_ends ends, bracketDivisors_nil, divisors]
    exact ⟨rfl, rfl⟩
  | case2 dividing t rest starts ih =>
    obtain ⟨rfl, quantity⟩ := Bool.and_eq_true_iff.1 starts
    obtain ⟨tail, later⟩ := tailOfDivisor_append ends rest behind
    rw [List.cons_append, bracketDivisors_quantity ((same t rest).trans quantity),
      bracketDivisors_quantity quantity, divisors_quantity ((same t rest).trans quantity),
      divisors_quantity quantity, tail, later, ih.1, ih.2]
    simp
  | case3 dividing t rest other ih =>
    rw [Bool.not_eq_true] at other
    rw [List.cons_append, bracketDivisors_cons ((same t rest).symm ▸ other),
      bracketDivisors_cons other, divisors_cons ((same t rest).symm ▸ other), divisors_cons other,
      ih.1, ih.2]
    exact ⟨rfl, rfl⟩

/-! ## Partners -/

theorem eq_openBracket_of_kind (opens : t.kind = .openBracket) : t = .openBracket := by
  cases t <;> first | rfl | cases opens

theorem eq_closeBracket_of_kind (closes : t.kind = .closeBracket) : t = .closeBracket := by
  cases t <;> first | rfl | cases closes

/-- Each bracket has its partner. -/
inductive Balanced : List Token → Prop
  | nil : Balanced []
  | token {t : Token} {ts : List Token} (opens : t ≠ .openBracket) (closes : t ≠ .closeBracket)
      (rest : Balanced ts) : Balanced (t :: ts)
  | pair {inside ts : List Token} (within : Balanced inside) (rest : Balanced ts) :
      Balanced (.openBracket :: (inside ++ .closeBracket :: ts))

/-- A list without brackets. -/
theorem Balanced.of_forall (plain : ∀ t ∈ ts, t ≠ .openBracket ∧ t ≠ .closeBracket) :
    Balanced ts := by
  induction ts with
  | nil => exact .nil
  | cons t ts ih =>
    rw [List.forall_mem_cons] at plain
    exact .token plain.1.1 plain.1.2 (ih plain.2)

/-- Behind tokens that are no brackets each bracket keeps its partner. -/
theorem Balanced.of_append (plain : ∀ t ∈ ts, t ≠ .openBracket ∧ t ≠ .closeBracket)
    (balanced : Balanced (ts ++ us)) : Balanced us := by
  induction ts with
  | nil => exact balanced
  | cons t ts ih =>
    rw [List.forall_mem_cons] at plain
    rw [List.cons_append] at balanced
    generalize same : t :: (ts ++ us) = all at balanced
    cases balanced with
    | nil => cases same
    | token _ _ rest =>
      obtain ⟨-, rfl⟩ := List.cons.inj same
      exact ih plain.2 rest
    | pair => exact absurd (List.cons.inj same).1 plain.1.1

/-- A divisor that opens no bracket has none. -/
theorem plain_of_divisor (quantity : t.isQuantity ts = true)
    (none : .openBracket ∉ t :: tailOfDivisor ts) :
    ∀ u ∈ t :: tailOfDivisor ts, u ≠ .openBracket ∧ u ≠ .closeBracket := by
  intro u within
  refine ⟨fun opens => none (opens ▸ within), ?_⟩
  rintro rfl
  rcases List.mem_cons.1 within with rfl | behind
  · cases quantity
  · cases List.all_eq_true.1 List.all_takeWhile _ behind

/-- In balanced tokens the brackets around divisors have partners too, when divisors open none. -/
theorem Balanced.bracketDivisors (balanced : Balanced ts)
    (none : ∀ divisor ∈ divisors dividing ts, .openBracket ∉ divisor) :
    Balanced (bracketDivisors dividing ts) := by
  induction n : ts.length using Nat.strongRecOn generalizing ts dividing with
  | ind n ih =>
    subst n
    cases ts with
    | nil =>
      rw [bracketDivisors_nil]
      exact .nil
    | cons t rest =>
      cases starts : dividing && t.isQuantity rest with
      | true =>
        obtain ⟨rfl, quantity⟩ := Bool.and_eq_true_iff.1 starts
        rw [divisors_quantity quantity, List.forall_mem_cons] at none
        have plain := plain_of_divisor quantity none.1
        have split : t :: rest = (t :: tailOfDivisor rest) ++ behindDivisor rest :=
          congrArg (t :: ·) List.takeWhile_append_dropWhile.symm
        have later : Balanced (behindDivisor rest) := Balanced.of_append plain (split ▸ balanced)
        have bracketed := ih _ (Nat.lt_succ_of_le (length_behindDivisor_le rest)) later none.2 rfl
        rw [bracketDivisors_quantity quantity]
        exact .pair (.of_forall plain) bracketed
      | false =>
        rw [divisors_cons starts] at none
        rw [bracketDivisors_cons starts]
        cases balanced with
        | token opens closes behind =>
          exact .token opens closes (ih _ (Nat.lt_succ_self _) behind none rfl)
        | @pair inside behind within later =>
          have begun : dividesAfter dividing .openBracket = false := rfl
          obtain ⟨bracketed, listed⟩ :=
            bracketDivisors_ending (e := .closeBracket) rfl false inside behind
          rw [begun, listed, List.forall_mem_append, divisors_ends rfl] at none
          rw [begun, bracketed, bracketDivisors_ends rfl]
          simp only [List.length_cons, List.length_append] at ih
          exact .pair (ih _ (by omega) within none.1 rfl) (ih _ (by omega) later none.2 rfl)

/-- A divisor in front of an opening bracket that does not belong to it. -/
theorem tailOfDivisor_opening (none : .openBracket ∉ tailOfDivisor (ts ++ .openBracket :: us)) :
    tailOfDivisor (ts ++ .openBracket :: us) = tailOfDivisor ts ∧
      behindDivisor (ts ++ .openBracket :: us) = behindDivisor ts ++ .openBracket :: us := by
  induction ts with
  | nil => exact absurd List.mem_cons_self none
  | cons t ts ih =>
    simp only [tailOfDivisor, behindDivisor, List.cons_append, List.takeWhile_cons,
      List.dropWhile_cons] at none ih ⊢
    cases ends : t.endsDivisor with
    | true => simp
    | false =>
      rw [ends] at none
      obtain ⟨tail, behind⟩ := ih fun within => none (List.mem_cons_of_mem t within)
      simp [tail, behind]

/-- In front of an opening bracket that belongs to no divisor and behind it, divisors are those of
two lists. -/
theorem bracketDivisors_opening (dividing : Bool) (before behind : List Token)
    (none : ∀ divisor ∈ divisors dividing (before ++ .openBracket :: behind),
      .openBracket ∉ divisor) :
    bracketDivisors dividing (before ++ .openBracket :: behind) =
        bracketDivisors dividing before ++ .openBracket :: bracketDivisors false behind ∧
      ∀ divisor ∈ divisors false behind, .openBracket ∉ divisor := by
  have same (t : Token) (rest : List Token) :
      t.isQuantity (rest ++ .openBracket :: behind) = t.isQuantity rest := by
    rw [isQuantity, isQuantity, head?_any_append rfl]
  induction dividing, before using bracketDivisors.induct with
  | case1 dividing =>
    have other : (dividing && isQuantity .openBracket behind) = false := Bool.and_false _
    rw [List.nil_append, divisors_cons other] at none
    rw [List.nil_append, bracketDivisors_cons other, bracketDivisors_nil]
    exact ⟨rfl, none⟩
  | case2 dividing t rest starts ih =>
    obtain ⟨rfl, quantity⟩ := Bool.and_eq_true_iff.1 starts
    rw [List.cons_append, divisors_quantity ((same t rest).trans quantity),
      List.forall_mem_cons] at none
    obtain ⟨tail, later⟩ :=
      tailOfDivisor_opening fun within => none.1 (List.mem_cons_of_mem t within)
    rw [later] at none
    obtain ⟨split, others⟩ := ih none.2
    rw [List.cons_append, bracketDivisors_quantity ((same t rest).trans quantity),
      bracketDivisors_quantity quantity, tail, later, split]
    exact ⟨by simp, others⟩
  | case3 dividing t rest other ih =>
    rw [Bool.not_eq_true] at other
    rw [List.cons_append, divisors_cons ((same t rest).symm ▸ other)] at none
    obtain ⟨split, others⟩ := ih none
    rw [List.cons_append, bracketDivisors_cons ((same t rest).symm ▸ other),
      bracketDivisors_cons other, split]
    exact ⟨rfl, others⟩

/-- Partners stay partners when divisors open no bracket. -/
theorem bracketDivisors_pair (inside behind : List Token) (within : Balanced inside)
    (none : ∀ divisor ∈ divisors dividing
      (before ++ .openBracket :: (inside ++ .closeBracket :: behind)), .openBracket ∉ divisor) :
    bracketDivisors dividing (before ++ .openBracket :: (inside ++ .closeBracket :: behind)) =
        bracketDivisors dividing before ++ .openBracket ::
          (bracketDivisors false inside ++ .closeBracket :: bracketDivisors false behind) ∧
      Balanced (bracketDivisors false inside) := by
  obtain ⟨opening, none⟩ := bracketDivisors_opening dividing before _ none
  obtain ⟨closing, listed⟩ := bracketDivisors_ending (e := .closeBracket) rfl false inside behind
  rw [listed, List.forall_mem_append] at none
  rw [opening, closing, bracketDivisors_ends rfl]
  exact ⟨rfl, within.bracketDivisors none.1⟩

end UnitCalc.Token
