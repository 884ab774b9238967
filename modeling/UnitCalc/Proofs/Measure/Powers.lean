/-
# Powers in the terms of a unit

The terms of a unit raise names to exponents. Whole exponents are integers, and then the terms say
how often each name occurs as a factor, which merging terms adds up and powers multiply. Exponents
are exact in this as long as the integers stay below the bound of single precision.

## Main definitions

* `UnitTerm.power`: the integer that an exponent is.
* `UnitTerm.powers`: how often each name is a factor.
* `UnitTerm.AreWhole`: names occur once, and their exponents are whole.

## Main results

* `UnitTerm.AreWhole.foldl_merge`: merging terms adds powers.
* `UnitTerm.AreWhole.map`: scaling exponents multiplies powers.
* `UnitTerm.foldl_merge_of_disjoint`: terms of other names are put behind.
-/

import Mathlib
import UnitCalc.Measure.Unit
import UnitCalc.Proofs.Number.Single

noncomputable section

namespace UnitCalc.UnitTerm

open Number (IsWhole)

variable {R : Type} {t : UnitTerm R Float32}

/-- The integer that the exponent is. -/
def power (t : UnitTerm R Float32) : ℤ :=
  (Exponent.toInt? t.exponent).getD 0

theorem power_eq {a : ℤ} (whole : IsWhole t.exponent a) : t.power = a := by
  rw [power, whole.toInt?_eq, Option.getD_some]

theorem bne_zero_iff (whole : IsWhole t.exponent t.power) :
    (t.exponent != 0) = true ↔ t.power ≠ 0 := by
  rw [bne, Bool.not_eq_true', ← Bool.not_eq_true]
  exact not_congr (whole.beq_iff .zero)

/-- How often each name is a factor in a product of powers. -/
def powersOf (ps : List (String × ℤ)) : String →₀ ℤ :=
  (ps.map fun p => Finsupp.single p.1 p.2).sum

@[simp]
theorem powersOf_nil : powersOf [] = 0 :=
  rfl

@[simp]
theorem powersOf_cons (p : String × ℤ) (ps : List (String × ℤ)) :
    powersOf (p :: ps) = Finsupp.single p.1 p.2 + powersOf ps :=
  rfl

@[simp]
theorem powersOf_append (ps qs : List (String × ℤ)) :
    powersOf (ps ++ qs) = powersOf ps + powersOf qs := by
  rw [powersOf, List.map_append, List.sum_append]
  rfl

theorem powersOf_perm {ps qs : List (String × ℤ)} (same : ps.Perm qs) :
    powersOf ps = powersOf qs :=
  (same.map _).sum_eq

/-- The power of a power. -/
def scale (n : ℤ) (p : String × ℤ) : String × ℤ :=
  (p.1, n * p.2)

theorem map_fst_scale (n : ℤ) (ps : List (String × ℤ)) :
    (ps.map (scale n)).map Prod.fst = ps.map Prod.fst := by
  rw [List.map_map]
  rfl

theorem powersOf_scale (n : ℤ) (ps : List (String × ℤ)) :
    powersOf (ps.map (scale n)) = n • powersOf ps := by
  induction ps with
  | nil => exact (smul_zero n).symm
  | cons p ps ih =>
    rw [List.map_cons, powersOf_cons, powersOf_cons, ih, smul_add, Finsupp.smul_single, smul_eq_mul]
    rfl

/-- A name that is not there is no factor. -/
theorem powersOf_of_not_mem {ps : List (String × ℤ)} {name : String}
    (absent : name ∉ ps.map Prod.fst) : powersOf ps name = 0 := by
  induction ps with
  | nil => rfl
  | cons p ps ih =>
    simp only [List.map_cons, List.mem_cons, not_or] at absent
    rw [powersOf_cons, Finsupp.add_apply, Finsupp.single_eq_of_ne absent.1, ih absent.2, add_zero]

/-- A name that occurs once is as often a factor as its exponent says. -/
theorem powersOf_of_mem {ps : List (String × ℤ)} {p : String × ℤ}
    (distinct : (ps.map Prod.fst).Nodup) (within : p ∈ ps) : powersOf ps p.1 = p.2 := by
  induction ps with
  | nil => cases within
  | cons q ps ih =>
    rw [List.map_cons, List.nodup_cons] at distinct
    rw [powersOf_cons, Finsupp.add_apply]
    rcases List.mem_cons.1 within with rfl | behind
    · rw [Finsupp.single_eq_same, powersOf_of_not_mem distinct.1, add_zero]
    · have other : p.1 ≠ q.1 := fun same => distinct.1 (same ▸ List.mem_map_of_mem behind)
      rw [Finsupp.single_eq_of_ne other, ih distinct.2 behind, zero_add]

/-! ## Lists of whole powers -/

variable [Scalar R] {terms rest : List (UnitTerm R Float32)}

/-- The name with the integer that its exponent is. -/
def pair (t : UnitTerm R Float32) : String × ℤ :=
  (t.name, t.power)

/-- How often each name is a factor in a product of terms. -/
def powers (terms : List (UnitTerm R Float32)) : String →₀ ℤ :=
  powersOf (terms.map pair)

theorem powers_cons (t : UnitTerm R Float32) (terms : List (UnitTerm R Float32)) :
    powers (t :: terms) = Finsupp.single t.name t.power + powers terms :=
  rfl

theorem map_fst_pair (terms : List (UnitTerm R Float32)) :
    (terms.map pair).map Prod.fst = terms.map name := by
  rw [List.map_map]
  rfl

theorem powers_of_not_mem {name : String} (absent : name ∉ terms.map UnitTerm.name) :
    powers terms name = 0 := by
  rw [← map_fst_pair] at absent
  exact powersOf_of_not_mem absent

/-- Names occur once, and their exponents are whole. -/
structure AreWhole (terms : List (UnitTerm R Float32)) : Prop where
  whole : ∀ t ∈ terms, IsWhole t.exponent t.power
  distinct : (terms.map name).Nodup

theorem AreWhole.powers_of_mem (areWhole : AreWhole terms) (within : t ∈ terms) :
    powers terms t.name = t.power := by
  have distinct := areWhole.distinct
  rw [← map_fst_pair] at distinct
  exact powersOf_of_mem distinct (List.mem_map_of_mem (f := pair) within)

theorem AreWhole.tail (areWhole : AreWhole (t :: terms)) : AreWhole terms :=
  ⟨fun s within => areWhole.whole s (List.mem_cons_of_mem _ within),
    (List.nodup_cons.1 areWhole.distinct).2⟩

theorem AreWhole.head_not_mem (areWhole : AreWhole (t :: terms)) : t.name ∉ terms.map name :=
  (List.nodup_cons.1 areWhole.distinct).1

/-! ## Merging -/

/-- Merging adds the name behind the others, unless it is there. -/
theorem map_name_merge (terms : List (UnitTerm R Float32)) (t : UnitTerm R Float32) :
    (merge terms t).map name =
      if t.name ∈ terms.map name then terms.map name else terms.map name ++ [t.name] := by
  induction terms with
  | nil => rfl
  | cons u terms ih =>
    rw [merge]
    by_cases same : u.name = t.name
    · have within : t.name ∈ (u :: terms).map name := by
        rw [← same]
        exact List.mem_cons_self
      rw [if_pos (beq_iff_eq.2 same), if_pos within]
      rfl
    · have different : ¬ t.name = u.name := fun equal => same equal.symm
      rw [if_neg (by simpa using same), List.map_cons, ih]
      simp only [List.map_cons, List.mem_cons, different, false_or]
      split <;> rfl

/-- Merging a term adds its power. -/
theorem AreWhole.merge (areWhole : AreWhole terms) (whole : IsWhole t.exponent t.power)
    (small : (powers terms t.name + t.power).natAbs < 2 ^ 24) :
    AreWhole (merge terms t) ∧
      powers (UnitTerm.merge terms t) = powers terms + Finsupp.single t.name t.power := by
  have distinct : ((UnitTerm.merge terms t).map name).Nodup := by
    rw [map_name_merge]
    split
    · exact areWhole.distinct
    · next absent => exact List.nodup_append_comm.1 (List.nodup_cons.2 ⟨absent, areWhole.distinct⟩)
  suffices exact : (∀ s ∈ UnitTerm.merge terms t, IsWhole s.exponent s.power) ∧
      powers (UnitTerm.merge terms t) = powers terms + Finsupp.single t.name t.power from
    ⟨⟨exact.1, distinct⟩, exact.2⟩
  clear distinct
  induction terms with
  | nil => exact ⟨by simpa [UnitTerm.merge] using whole, by simp [UnitTerm.merge, powers, pair]⟩
  | cons u terms ih =>
    have own := areWhole.whole u List.mem_cons_self
    rw [UnitTerm.merge]
    by_cases same : u.name = t.name
    · rw [if_pos (beq_iff_eq.2 same)]
      rw [← same, areWhole.powers_of_mem List.mem_cons_self] at small
      have sum : IsWhole (u.exponent + t.exponent) (u.power + t.power) := own.add whole small
      have power : ({ u with exponent := u.exponent + t.exponent } : UnitTerm R Float32).power =
        u.power + t.power := power_eq sum
      refine ⟨List.forall_mem_cons.2 ⟨by rwa [power], areWhole.tail.whole⟩, ?_⟩
      rw [powers_cons, powers_cons, power, ← same]
      show Finsupp.single u.name (u.power + t.power) + powers terms = _
      rw [Finsupp.single_add, add_right_comm]
    · rw [if_neg (by simpa using same)]
      have other : powers (u :: terms) t.name = powers terms t.name := by
        rw [powers_cons, Finsupp.add_apply, Finsupp.single_eq_of_ne (Ne.symm same), zero_add]
      rw [other] at small
      obtain ⟨wholes, sum⟩ := ih areWhole.tail small
      refine ⟨List.forall_mem_cons.2 ⟨own, wholes⟩, ?_⟩
      rw [powers_cons, powers_cons, sum, add_assoc]

/-- Merging terms adds their powers, which have to stay below the bound. -/
theorem AreWhole.foldl_merge (areWhole : AreWhole terms) (others : AreWhole rest)
    (small : ∀ name, (powers terms name + powers rest name).natAbs < 2 ^ 24) :
    AreWhole (rest.foldl UnitTerm.merge terms) ∧
      powers (rest.foldl UnitTerm.merge terms) = powers terms + powers rest := by
  induction rest generalizing terms with
  | nil => exact ⟨areWhole, (add_zero _).symm⟩
  | cons t rest ih =>
    have absent := powers_of_not_mem others.head_not_mem
    have own := small t.name
    rw [powers_cons, Finsupp.add_apply, Finsupp.single_eq_same, absent, add_zero] at own
    obtain ⟨merged, sum⟩ := areWhole.merge (others.whole t List.mem_cons_self) own
    have whole : powers (UnitTerm.merge terms t) + powers rest =
        powers terms + powers (t :: rest) := by
      rw [sum, powers_cons, add_assoc]
    obtain ⟨all, total⟩ := ih merged others.tail fun name => by
      rw [← Finsupp.add_apply, whole]
      exact small name
    exact ⟨all, total.trans whole⟩

/-- Terms of other names are put behind. -/
theorem foldl_merge_of_disjoint (distinct : (rest.map name).Nodup)
    (disjoint : ∀ t ∈ rest, t.name ∉ terms.map name) :
    rest.foldl UnitTerm.merge terms = terms ++ rest := by
  have merge_of_not_mem {terms : List (UnitTerm R Float32)} {t : UnitTerm R Float32}
      (absent : t.name ∉ terms.map name) : UnitTerm.merge terms t = terms ++ [t] := by
    induction terms with
    | nil => rfl
    | cons u terms ih =>
      simp only [List.map_cons, List.mem_cons, not_or] at absent
      rw [UnitTerm.merge, if_neg (by simpa using Ne.symm absent.1), ih absent.2, List.cons_append]
  induction rest generalizing terms with
  | nil => exact (List.append_nil _).symm
  | cons t rest ih =>
    rw [List.map_cons, List.nodup_cons] at distinct
    rw [List.foldl_cons, merge_of_not_mem (disjoint t List.mem_cons_self), ih distinct.2,
      List.append_assoc, List.singleton_append]
    intro s within
    rw [List.map_append, List.mem_append, not_or]
    refine ⟨disjoint s (List.mem_cons_of_mem _ within), ?_⟩
    rw [List.map_singleton, List.mem_singleton]
    rintro same
    exact distinct.1 (same ▸ List.mem_map_of_mem within)

/-! ## Scaling and dropping -/

/-- Terms whose exponents are multiplied. -/
theorem AreWhole.map {f : UnitTerm R Float32 → UnitTerm R Float32} {n : ℤ}
    (areWhole : AreWhole terms) (names : ∀ t, (f t).name = t.name)
    (scaled : ∀ t ∈ terms, IsWhole (f t).exponent (n * t.power)) :
    AreWhole (terms.map f) ∧ (terms.map f).map pair = (terms.map pair).map (scale n) := by
  have power : ∀ t ∈ terms, (f t).power = n * t.power := fun t within =>
    power_eq (scaled t within)
  refine ⟨⟨?_, ?_⟩, ?_⟩
  · rw [List.forall_mem_map]
    intro t within
    rw [power t within]
    exact scaled t within
  · rw [List.map_map, show name ∘ f = name from funext names]
    exact areWhole.distinct
  · rw [List.map_map, List.map_map]
    exact List.map_congr_left fun t within => Prod.ext (names t) (power t within)

/-- Powers that are not zero are kept. -/
theorem AreWhole.filter_eq_self (areWhole : AreWhole terms) (nonzero : ∀ p ∈ terms.map pair, p.2 ≠ 0) :
    (terms.filter fun t => t.exponent != 0) = terms :=
  List.filter_eq_self.2 fun t within =>
    (bne_zero_iff (areWhole.whole t within)).2 (nonzero (pair t) (List.mem_map_of_mem within))

/-- Dropping the powers that are zero changes nothing. -/
theorem AreWhole.filter (areWhole : AreWhole terms) :
    AreWhole (terms.filter fun t => t.exponent != 0) ∧
      powers (terms.filter fun t => t.exponent != 0) = powers terms ∧
      ∀ t ∈ terms.filter fun t => t.exponent != 0, t.power ≠ 0 := by
  refine ⟨⟨fun t within => areWhole.whole t (List.mem_filter.1 within).1,
    areWhole.distinct.sublist (List.filter_sublist.map _)⟩, ?_, fun t within => ?_⟩
  · induction terms with
    | nil => rfl
    | cons t terms ih =>
      have own := bne_zero_iff (areWhole.whole t List.mem_cons_self)
      rw [List.filter_cons]
      split
      · rw [powers_cons, powers_cons, ih areWhole.tail]
      · next dropped =>
        rw [own, not_not] at dropped
        rw [powers_cons, dropped, Finsupp.single_zero, zero_add, ih areWhole.tail]
  · obtain ⟨within, kept⟩ := List.mem_filter.1 within
    exact (bne_zero_iff (areWhole.whole t within)).1 kept

/-! ## Texts -/

/-- A name and its power; the power one is not written. -/
def word (p : String × ℤ) : String :=
  if p.2 = 1 then p.1 else p.1 ++ "^" ++ toString p.2

/-- What stands in front of the slash. -/
def numerator (words : List String) : String :=
  match words with
  | [] => "1"
  | _ => "·".intercalate words

/-- What stands behind the slash. -/
def divisor (words : List String) : String :=
  match words with
  | [single] => single
  | several => "(" ++ "·".intercalate several ++ ")"

/-- Words in front of and behind a slash, which is not written when there are none behind it. -/
def fraction (front behind : List String) : String :=
  match behind with
  | [] => numerator front
  | words => numerator front ++ "/" ++ divisor words

/-- The powers in front of the slash. -/
def raised (ps : List (String × ℤ)) : List (String × ℤ) :=
  ps.filter fun p => 0 < p.2

/-- The powers behind the slash. -/
def under (ps : List (String × ℤ)) : List (String × ℤ) :=
  ps.filter fun p => p.2 < 0

/-- A power of the reciprocal. -/
def negated (p : String × ℤ) : String × ℤ :=
  (p.1, -p.2)

theorem powerText_eq {e : Float32} {a : ℤ} (name : String) (whole : IsWhole e a) :
    powerText name e = word (name, a) := by
  have small := whole.natAbs_lt
  have one : (e == 1) = true ↔ a = 1 := whole.beq_iff .one
  have text : exponentText e = toString a := by
    rw [exponentText, whole.toInt?_eq]
    show toString (max (-2147483648) (min a 2147483647)) = toString a
    rw [min_eq_left (by omega), max_eq_right (by omega)]
  rw [powerText, word, text]
  split
  · next single => rw [if_pos (one.1 single)]
  · next other => rw [if_neg (fun single => other (one.2 single))]

theorem render_eq_fraction {E : Type} [Exponent E] (terms : List (UnitTerm R E)) :
    render terms = fraction
      ((terms.filter fun t => 0 < t.exponent).map fun t => powerText t.name t.exponent)
      ((terms.filter fun t => t.exponent < 0).map fun t => powerText t.name (-t.exponent)) := by
  have brackets (text words : String) :
      text ++ "/(" ++ words ++ ")" = text ++ "/" ++ ("(" ++ words ++ ")") := by
    have sign : "/(" = "/" ++ "(" := rfl
    simp only [sign, String.append_assoc]
  simp only [render]
  generalize (terms.filter fun t => t.exponent < 0).map (fun t => powerText t.name (-t.exponent)) =
    behind
  generalize terms.filter (fun t => 0 < t.exponent) = front
  rcases front with - | ⟨t, front⟩ <;> rcases behind with - | ⟨first, - | ⟨second, others⟩⟩
  all_goals first | rfl | exact brackets _ _

/-- The words of some terms are those of their powers. -/
theorem map_filter_pair {p : UnitTerm R Float32 → Bool} {q : String × ℤ → Bool}
    {f : UnitTerm R Float32 → String} {g : String × ℤ → String}
    (kept : ∀ t ∈ terms, p t = q (pair t)) (words : ∀ t ∈ terms, f t = g (pair t)) :
    (terms.filter p).map f = ((terms.map pair).filter q).map g := by
  rw [List.filter_map, List.map_map, List.filter_congr kept]
  exact List.map_congr_left fun t within => words t (List.mem_filter.1 within).1

/-- The text of whole powers. -/
theorem render_eq (whole : ∀ t ∈ terms, IsWhole t.exponent t.power) :
    render terms = fraction ((raised (terms.map pair)).map word)
      ((under (terms.map pair)).map fun p => word (negated p)) := by
  rw [render_eq_fraction]
  congr 1
  · exact map_filter_pair (fun t within => decide_eq_decide.2 (IsWhole.zero.lt_iff (whole t within)))
      fun t within => powerText_eq t.name (whole t within)
  · exact map_filter_pair (fun t within => decide_eq_decide.2 ((whole t within).lt_iff .zero))
      fun t within => powerText_eq t.name (whole t within).neg

end UnitCalc.UnitTerm

end
