/-
# Texts of composed units

The text of a unit lists its terms, those with positive powers in front of a slash and the others
behind it. Read as an expression, the slash belongs to the last power in front of it, and the unit
that comes out has the same terms in the order of the text. So it has the same text again, the same
dimension and the same factor.

The exponents have to be exact for this in each product that occurs, also in those that only occur
while the text is read.

## Main definitions

* `MeasureUnit.Readable`: powers of which no product of some is rounded.
* `MeasureUnit.Reads`: a text is read as the unit of some powers.

## Main results

* `MeasureUnit.reads_fraction`: the text of powers is read as their unit.
* `MeasureUnit.Composed.parse_text`: the texts of composed units parse back.
-/

import Mathlib
import UnitCalc.Proofs.Measure.Composed
import UnitCalc.Proofs.Measure.Denoting

noncomputable section

namespace UnitCalc

open Number (IsWhole)

theorem Dimension.pow_congr {d : Dimension Float32} {e f : Float32} {n : ℤ} (left : IsWhole e n)
    (right : IsWhole f n) (nonzero : n ≠ 0) : d.pow e = d.pow f := by
  simp only [Dimension.pow, Dimension.map, left.mul_congr right nonzero]

namespace UnitTerm

variable {ps : List (String × ℤ)}

theorem negated_eq_scale : negated = scale (-1) := by
  funext p
  rw [negated, scale, neg_one_mul]

theorem map_negated_negated (ps : List (String × ℤ)) : (ps.map negated).map negated = ps := by
  have involutive : negated ∘ negated = id := funext fun p => Prod.ext rfl (neg_neg p.2)
  rw [List.map_map, involutive, List.map_id]

theorem map_scale_one (ps : List (String × ℤ)) : ps.map (scale 1) = ps := by
  have same : scale 1 = id := funext fun p => Prod.ext rfl (one_mul p.2)
  rw [same, List.map_id]

/-- Powers are in front of the slash or behind it. -/
theorem raised_append_under (nonzero : ∀ p ∈ ps, p.2 ≠ 0) : (raised ps ++ under ps).Perm ps := by
  have behind : under ps = ps.filter fun p => !decide (0 < p.2) :=
    List.filter_congr fun p within => by
      have := nonzero p within
      rw [Bool.eq_iff_iff]
      simp only [decide_eq_true_eq, Bool.not_eq_true', decide_eq_false_iff_not]
      omega
  rw [raised, behind]
  exact List.filter_append_perm _ _

/-- Powers keep their side and their order. -/
theorem raised_sorted (ps : List (String × ℤ)) :
    raised (raised ps ++ under ps) = raised ps ∧ under (raised ps ++ under ps) = under ps := by
  have apart (p : String × ℤ) : (decide (0 < p.2) && decide (p.2 < 0)) = false := by
    simp only [Bool.and_eq_false_iff, decide_eq_false_iff_not]
    omega
  have apart' (p : String × ℤ) : (decide (p.2 < 0) && decide (0 < p.2)) = false := by
    rw [Bool.and_comm, apart]
  constructor
  · simp only [raised, under, List.filter_append, List.filter_filter, Bool.and_self, apart,
      List.filter_false, List.append_nil]
  · simp only [raised, under, List.filter_append, List.filter_filter, Bool.and_self, apart',
      List.filter_false, List.nil_append]

end UnitTerm

namespace MeasureUnit

open Catalogue (IsSymbol)
open UnitTree (Denotes loosest)
open UnitTerm (AreWhole powers powersOf pair scale negated word numerator divisor fraction raised
  under)

variable {u a b : MeasureUnit ℝ Float32} {ps qs : List (String × ℤ)} {n : ℤ} {e sign : Float32}

/-- Powers that a text can be read as: they are powers of different symbols, and no product of some
of them has an exponent that reaches the bound. -/
structure Readable (ps : List (String × ℤ)) : Prop where
  known : ∀ p ∈ ps, IsSymbol p.1
  nonzero : ∀ p ∈ ps, p.2 ≠ 0
  small : ∀ p ∈ ps, p.2.natAbs < 2 ^ 24
  distinct : (ps.map Prod.fst).Nodup
  dimension : ∀ part : List (String × ℤ), part.Sublist ps →
    ∀ k, (exactDimension (powersOf part) k).natAbs < 2 ^ 24

namespace Readable

theorem sublist (readable : Readable ps) (within : qs.Sublist ps) : Readable qs where
  known p here := readable.known p (within.subset here)
  nonzero p here := readable.nonzero p (within.subset here)
  small p here := readable.small p (within.subset here)
  distinct := readable.distinct.sublist (within.map _)
  dimension part inside := readable.dimension part (inside.trans within)

theorem perm (readable : Readable ps) (same : qs.Perm ps) : Readable qs where
  known p here := readable.known p (same.subset here)
  nonzero p here := readable.nonzero p (same.subset here)
  small p here := readable.small p (same.subset here)
  distinct := (same.map _).nodup_iff.2 readable.distinct
  dimension part inside := by
    obtain ⟨part', reordered, inside'⟩ := inside.subperm.trans same.subperm
    rw [← UnitTerm.powersOf_perm reordered]
    exact readable.dimension part' inside'

/-- The reciprocals of powers are readable with them. -/
theorem scale (readable : Readable ps) (unit : n = 1 ∨ n = -1) : Readable (ps.map (scale n)) where
  known := List.forall_mem_map.2 readable.known
  nonzero := List.forall_mem_map.2 fun p here => by
    have := readable.nonzero p here
    rcases unit with rfl | rfl <;> simpa [UnitTerm.scale] using this
  small := List.forall_mem_map.2 fun p here => by
    have := readable.small p here
    rcases unit with rfl | rfl <;> simpa [UnitTerm.scale] using this
  distinct := by
    rw [UnitTerm.map_fst_scale]
    exact readable.distinct
  dimension part inside k := by
    obtain ⟨part', inside', rfl⟩ := List.sublist_map_iff.1 inside
    have := readable.dimension part' inside' k
    rw [UnitTerm.powersOf_scale, exactDimension, map_smul]
    rcases unit with rfl | rfl <;> simpa [exactDimension] using this

theorem isBounded (readable : Readable ps) : IsBounded (powersOf ps) :=
  .of_distinct readable.distinct readable.small fun k => by
    rw [← exactDimension_powersOf]
    exact readable.dimension ps (List.Sublist.refl ps) k

end Readable

/-- The unit is the product of these powers, in this order. -/
structure HasPowers (u : MeasureUnit ℝ Float32) (ps : List (String × ℤ)) : Prop where
  isProduct : u.IsProduct
  pairs : u.terms.map pair = ps

/-- Units of different symbols are joined by listing their powers one behind the other. -/
theorem HasPowers.joinWith (left : HasPowers a ps) (right : HasPowers b qs) (unit : n = 1 ∨ n = -1)
    (whole : IsWhole sign n) (readable : Readable (ps ++ qs.map (scale n))) :
    HasPowers (joinWith sign a b) (ps ++ qs.map (scale n)) := by
  obtain ⟨product, rfl⟩ := left
  obtain ⟨product', rfl⟩ := right
  have total : powersOf (a.terms.map pair ++ (b.terms.map pair).map (scale n)) =
      powers a.terms + n • powers b.terms := by
    rw [UnitTerm.powersOf_append, UnitTerm.powersOf_scale]
    rfl
  refine ⟨(product.joinWith product' unit whole (total ▸ readable.isBounded)).1, ?_⟩
  obtain ⟨scaled, pairs⟩ := product'.signed unit whole
  have distinct := readable.distinct
  rw [← pairs, ← List.map_append, UnitTerm.map_fst_pair] at distinct
  have both : AreWhole (a.terms ++ b.terms.map fun t => { t with exponent := sign * t.exponent }) :=
    ⟨List.forall_mem_append.2 ⟨product.areWhole.whole, scaled.whole⟩, distinct⟩
  have merged : b.terms.foldl (fun terms t =>
      UnitTerm.merge terms { t with exponent := sign * t.exponent }) a.terms =
        a.terms ++ b.terms.map fun t => { t with exponent := sign * t.exponent } := by
    rw [← UnitTerm.foldl_merge_of_disjoint scaled.distinct, List.foldl_map]
    intro t within here
    rw [List.map_append] at distinct
    exact List.disjoint_of_nodup_append distinct here (List.mem_map_of_mem within)
  show ((b.terms.foldl _ a.terms).filter fun t => t.exponent != 0).map pair = _
  rw [merged, both.filter_eq_self, List.map_append, pairs]
  rw [List.map_append, pairs]
  exact readable.nonzero

/-- Powers of units multiply the powers in the list. -/
theorem HasPowers.pow (base : HasPowers u ps) (whole : IsWhole e n)
    (readable : Readable (ps.map (scale n))) : HasPowers (u.pow e) (ps.map (scale n)) := by
  obtain ⟨product, rfl⟩ := base
  have bounded := readable.isBounded
  rw [UnitTerm.powersOf_scale] at bounded
  refine ⟨(product.pow whole bounded).1, ?_⟩
  obtain ⟨raised, pairs⟩ := product.raised whole bounded
  show ((u.terms.map _).filter fun t => t.exponent != 0).map pair = _
  rw [raised.filter_eq_self (pairs ▸ readable.nonzero), pairs]

/-! ## Reading -/

/-- A text is read, at a level of the grammar, as the unit of some powers. -/
def Reads (level : ℕ) (cs : List Char) (ps : List (String × ℤ)) : Prop :=
  ∃ u : MeasureUnit ℝ Float32, Denotes Catalogue.find? level cs (.unit u) ∧ HasPowers u ps

variable {level low high : ℕ} {cs ds : List Char} {p : String × ℤ}

namespace Reads

theorem looser (reads : Reads low cs ps) (le : low ≤ high) : Reads high cs ps := by
  obtain ⟨u, denotes, has⟩ := reads
  exact ⟨u, denotes.looser le, has⟩

theorem bracket (inside : Reads loosest cs ps) : Reads 0 ('(' :: (cs ++ [')'])) ps := by
  obtain ⟨u, denotes, has⟩ := inside
  exact ⟨u, denotes.bracket, has⟩

/-- A product of powers of different symbols. -/
theorem mul (left : Reads loosest cs ps) (right : Reads 2 ds qs) (readable : Readable (ps ++ qs)) :
    Reads loosest (cs ++ '·' :: ds) (ps ++ qs) := by
  obtain ⟨a, denotes, has⟩ := left
  obtain ⟨b, denotes', has'⟩ := right
  have product := has.joinWith has' (.inl rfl) .one (n := 1)
  rw [UnitTerm.map_scale_one] at product
  exact ⟨a.join b, denotes.op (o := .mul) (by decide) denotes' rfl, product readable⟩

/-- A quotient of powers of different symbols. -/
theorem div (left : Reads 2 cs ps) (right : Reads 1 ds qs)
    (readable : Readable (ps ++ qs.map negated)) :
    Reads 2 (cs ++ '/' :: ds) (ps ++ qs.map negated) := by
  obtain ⟨a, denotes, has⟩ := left
  obtain ⟨b, denotes', has'⟩ := right
  rw [UnitTerm.negated_eq_scale] at readable ⊢
  exact ⟨a.joinOver b, denotes.op (o := .div) (by decide) denotes' rfl,
    has.joinWith has' (.inr rfl) IsWhole.one.neg readable⟩

/-- A reciprocal. -/
theorem inverse (right : Reads 1 ds qs) (readable : Readable (qs.map negated)) :
    Reads 2 ('1' :: '/' :: ds) (qs.map negated) := by
  obtain ⟨u, denotes, has⟩ := right
  rw [UnitTerm.negated_eq_scale] at readable ⊢
  have one : Denotes (E := Float32) Catalogue.find? 2 ['1'] (.number ((1 : ℕ) : ℝ)) :=
    (Denotes.number (n := 1) (Number.read_toString 1)).looser (Nat.zero_le _)
  have unscaled : u.inverse.scaled ((1 : ℕ) : ℝ) = u.inverse := by
    rw [scaled, if_pos (by simp)]
  have applied : UnitOperand.apply .div (.number ((1 : ℕ) : ℝ)) (.unit u) = .ok (.unit u.inverse) :=
    congrArg (fun u => Except.ok (UnitOperand.unit u)) unscaled
  exact ⟨u.inverse, one.op (o := .div) (by decide) denotes applied,
    has.pow IsWhole.one.neg readable⟩

end Reads

/-- A symbol with digits behind a caret. -/
theorem denotes_power {name : String} (found : Catalogue.find? name = some u) (m : ℕ) :
    Denotes Catalogue.find? 1 (name.toList ++ '^' :: (toString m).toList)
      (.unit (u.pow (Number.toSingle m))) := by
  obtain ⟨nonempty, letters⟩ := Catalogue.symbol_spec found
  have symbol : Denotes Catalogue.find? 1 name.toList (.unit u) :=
    (Denotes.name nonempty letters found).looser (Nat.zero_le _)
  exact symbol.op (o := .pow) (by decide) (Denotes.number (Number.read_toString m)) rfl

theorem isWhole_toSingle {m : ℕ} (small : m < 2 ^ 24) : IsWhole (Number.toSingle m) m := by
  have whole := IsWhole.toSingle (a := m) (by omega)
  exact_mod_cast whole

namespace Reads

/-- The word of a power. -/
theorem word (readable : Readable [p]) (positive : 0 < p.2) : Reads 1 (word p).toList [p] := by
  obtain ⟨name, n⟩ := p
  obtain ⟨u, found⟩ := Option.isSome_iff_exists.1 (readable.known _ List.mem_cons_self)
  obtain ⟨product, pairs⟩ := IsProduct.of_symbol found
  rw [UnitTerm.word]
  split
  · next single =>
    obtain rfl : n = 1 := single
    obtain ⟨nonempty, letters⟩ := Catalogue.symbol_spec found
    exact ⟨u, (Denotes.name nonempty letters found).looser (Nat.zero_le _), product, pairs⟩
  · obtain ⟨m, rfl⟩ : ∃ m : ℕ, n = m := ⟨n.toNat, by simp only at positive; omega⟩
    have small : m < 2 ^ 24 := readable.small _ List.mem_cons_self
    have raised : [((name, 1) : String × ℤ)].map (scale m) = [(name, (m : ℤ))] :=
      congrArg (fun n => [(name, n)]) (mul_one (m : ℤ))
    have text : (name ++ "^" ++ toString (m : ℤ)).toList =
        name.toList ++ '^' :: (toString m).toList := by
      have digits : toString (m : ℤ) = toString m := rfl
      simp [digits]
    rw [← raised] at readable ⊢
    rw [text]
    exact ⟨_, denotes_power found m,
      HasPowers.pow ⟨product, pairs⟩ (isWhole_toSingle small) readable⟩

/-- Words with dots between them, and more behind the last one. -/
theorem intercalate_append (words : List String) (last behind : String) :
    "·".intercalate (words ++ [last]) ++ behind = "·".intercalate (words ++ [last ++ behind]) := by
  induction words with
  | nil => simp
  | cons word words ih =>
    rw [List.cons_append, List.cons_append, String.intercalate_cons_of_ne_nil (by simp),
      String.intercalate_cons_of_ne_nil (by simp), ← ih, String.append_assoc]

theorem toList_intercalate (first : String) (others : List String) :
    ("·".intercalate (first :: others)).toList =
      first.toList ++ others.flatMap fun word => '·' :: word.toList := by
  induction others generalizing first with
  | nil => simp
  | cons word words ih =>
    rw [String.intercalate_cons_cons, String.toList_append, String.toList_append, ih]
    simp

/-- A product goes on with more factors. -/
theorem product {items : List (String × List (String × ℤ))} (start : Reads loosest cs ps)
    (each : ∀ item ∈ items, Reads 2 item.1.toList item.2)
    (readable : Readable (ps ++ items.flatMap Prod.snd)) :
    Reads loosest (cs ++ items.flatMap fun item => '·' :: item.1.toList)
      (ps ++ items.flatMap Prod.snd) := by
  induction items generalizing cs ps with
  | nil => simpa using start
  | cons item items ih =>
    rw [List.forall_mem_cons] at each
    rw [List.flatMap_cons, ← List.append_assoc] at readable
    have first := start.mul each.1 (readable.sublist (List.sublist_append_left _ _))
    simpa only [List.flatMap_cons, List.append_assoc] using ih first each.2 readable

/-- Factors with dots between them. -/
theorem intercalate {items : List (String × List (String × ℤ))} (nonempty : items ≠ [])
    (each : ∀ item ∈ items, Reads 2 item.1.toList item.2)
    (readable : Readable (items.flatMap Prod.snd)) :
    Reads loosest ("·".intercalate (items.map Prod.fst)).toList (items.flatMap Prod.snd) := by
  obtain ⟨first, others, rfl⟩ := List.exists_cons_of_ne_nil nonempty
  rw [List.forall_mem_cons] at each
  rw [List.map_cons, toList_intercalate, List.flatMap_map]
  exact (each.1.looser (by decide)).product each.2 readable

/-- The words of powers, each with its power. -/
def factors (ps : List (String × ℤ)) : List (String × List (String × ℤ)) :=
  ps.map fun p => (UnitTerm.word p, [p])

theorem map_fst_factors (ps : List (String × ℤ)) :
    (factors ps).map Prod.fst = ps.map UnitTerm.word := by
  rw [factors, List.map_map]
  rfl

theorem flatMap_snd_factors (ps : List (String × ℤ)) : (factors ps).flatMap Prod.snd = ps := by
  rw [factors, List.flatMap_map]
  exact List.flatMap_singleton' ps

theorem of_factors (positive : ∀ p ∈ ps, 0 < p.2) (readable : Readable ps) :
    ∀ item ∈ factors ps, Reads 2 item.1.toList item.2 :=
  List.forall_mem_map.2 fun p within =>
    (word (readable.sublist (List.singleton_sublist.2 within)) (positive p within)).looser
      (by decide)

/-- The words of powers and one more factor, with dots between them. -/
theorem ending {text : String} (positive : ∀ p ∈ ps, 0 < p.2) (last : Reads 2 text.toList qs)
    (readable : Readable (ps ++ qs)) :
    Reads loosest ("·".intercalate (ps.map UnitTerm.word ++ [text])).toList (ps ++ qs) := by
  have each : ∀ item ∈ factors ps ++ [(text, qs)], Reads 2 item.1.toList item.2 := by
    intro item within
    rcases List.mem_append.1 within with front | behind
    · exact of_factors positive (readable.sublist (List.sublist_append_left _ _)) item front
    · rw [List.mem_singleton.1 behind]
      exact last
  have flat : (factors ps ++ [(text, qs)]).flatMap Prod.snd = ps ++ qs := by
    rw [List.flatMap_append, flatMap_snd_factors, List.flatMap_singleton]
  have product := intercalate (by simp) each (by rwa [flat])
  rwa [flat, List.map_append, map_fst_factors] at product

/-- The words of powers with dots between them. -/
theorem words (nonempty : ps ≠ []) (positive : ∀ p ∈ ps, 0 < p.2) (readable : Readable ps) :
    Reads loosest ("·".intercalate (ps.map UnitTerm.word)).toList ps := by
  obtain ⟨init, last, rfl⟩ := (List.eq_nil_or_concat ps).resolve_left nonempty
  rw [List.concat_eq_append] at *
  rw [List.forall_mem_append] at positive
  rw [List.map_append]
  exact ending positive.1 ((word (readable.sublist (List.sublist_append_right _ _))
    (positive.2 last List.mem_cons_self)).looser (by decide)) readable

end Reads

/-! ## Fractions -/

theorem reads_divisor (nonempty : qs ≠ []) (positive : ∀ q ∈ qs, 0 < q.2) (readable : Readable qs) :
    Reads 1 (divisor (qs.map word)).toList qs := by
  match qs with
  | [] => exact absurd rfl nonempty
  | [q] => exact .word readable (positive q List.mem_cons_self)
  | q :: r :: qs =>
    have inside := Reads.words nonempty positive readable
    have text : (divisor ((q :: r :: qs).map word)).toList =
        '(' :: (("·".intercalate ((q :: r :: qs).map word)).toList ++ [')']) := by
      simp [divisor]
    rw [text]
    exact inside.bracket.looser (Nat.zero_le _)

/-- Words and a divisor behind the last of them. -/
theorem reads_quotient {text : String} (positive : ∀ p ∈ ps, 0 < p.2)
    (divisor : Reads 1 text.toList qs) (readable : Readable (ps ++ qs.map negated)) :
    Reads loosest (numerator (ps.map word) ++ ("/" ++ text)).toList (ps ++ qs.map negated) := by
  rcases List.eq_nil_or_concat ps with rfl | ⟨init, last, rfl⟩
  -- Nothing is in front of the slash but the number one.
  · have whole : (numerator [] ++ ("/" ++ text)).toList = '1' :: '/' :: text.toList := by
      simp [numerator]
    rw [List.map_nil, whole]
    exact (divisor.inverse readable).looser (by decide)
  -- The slash belongs to the last power in front of it.
  · rw [List.concat_eq_append] at *
    rw [List.forall_mem_append] at positive
    rw [List.append_assoc] at readable ⊢
    have behind := readable.sublist (List.sublist_append_right _ _)
    have quotient := ((Reads.word (behind.sublist (List.sublist_append_left _ _))
      (positive.2 last List.mem_cons_self)).looser (by decide)).div divisor behind
    have joined : (word last).toList ++ '/' :: text.toList =
        (word last ++ ("/" ++ text)).toList := by
      simp
    have whole : numerator ((init ++ [last]).map word) =
        "·".intercalate (init.map word ++ [word last]) := by
      rw [List.map_append]
      cases init <;> rfl
    rw [joined] at quotient
    rw [whole, Reads.intercalate_append]
    exact Reads.ending positive.1 quotient readable

/-- The text of powers is read as their unit. -/
theorem reads_fraction (nonempty : ps ≠ []) (readable : Readable ps) :
    Reads loosest (fraction ((raised ps).map word) ((under ps).map fun p => word (negated p))).toList
      (raised ps ++ under ps) := by
  have front : ∀ p ∈ raised ps, 0 < p.2 := fun p within =>
    of_decide_eq_true (List.mem_filter.1 within).2
  have behind : ∀ q ∈ (under ps).map negated, 0 < q.2 := List.forall_mem_map.2 fun p within =>
    neg_pos.2 (of_decide_eq_true (List.mem_filter.1 within).2)
  have sorted := readable.perm (UnitTerm.raised_append_under readable.nonzero)
  have words : (under ps).map (fun p => word (negated p)) = ((under ps).map negated).map word := by
    rw [List.map_map]
    rfl
  have back : ((under ps).map negated).map negated = under ps := UnitTerm.map_negated_negated _
  rw [words]
  by_cases whole : under ps = []
  · have some : raised ps ≠ [] := fun none => by
      have all := UnitTerm.raised_append_under readable.nonzero
      rw [none, whole] at all
      exact nonempty all.symm.eq_nil
    obtain ⟨p, others, split⟩ := List.exists_cons_of_ne_nil some
    rw [whole, List.append_nil] at sorted ⊢
    have product := Reads.words some front sorted
    rw [split] at product ⊢
    exact product
  · have divisors : Readable ((under ps).map negated) := by
      rw [UnitTerm.negated_eq_scale]
      exact (sorted.sublist (List.sublist_append_right _ _)).scale (.inr rfl)
    have divisor := reads_divisor (by simpa using whole) behind divisors
    have text : fraction ((raised ps).map word) (((under ps).map negated).map word) =
        numerator ((raised ps).map word) ++
          ("/" ++ UnitTerm.divisor (((under ps).map negated).map word)) := by
      obtain ⟨p, others, split⟩ := List.exists_cons_of_ne_nil whole
      rw [split, ← String.append_assoc]
      rfl
    have quotient := reads_quotient front divisor (back.symm ▸ sorted)
    rwa [back, ← text] at quotient

/-! ## A few powers -/

theorem isBounded_part {terms part : List (UnitTerm ℝ Float32)}
    (distinct : ((terms.map pair).map Prod.fst).Nodup)
    (few : ((terms.map pair).map fun p => p.2.natAbs).sum < 2 ^ 22)
    (inside : part.Sublist terms) : IsBounded (powers part) := by
  have within := inside.map pair
  refine .of_sum (distinct.sublist (within.map _)) (lt_of_le_of_lt ?_ few)
  exact (within.map fun p => p.2.natAbs).sum_le_sum fun n _ => Nat.zero_le n

theorem Composed.product_of_pairs (left : a.Composed) (right : b.Composed)
    (pairs : a.terms.map pair = ps) (pairs' : b.terms.map pair = qs)
    (bounded : IsBounded (powersOf (ps ++ qs))) : (a.join b).Composed := by
  refine left.product right ?_
  rwa [powers, powers, pairs, pairs', ← UnitTerm.powersOf_append]

theorem Composed.quotient_of_pairs (left : a.Composed) (right : b.Composed)
    (pairs : a.terms.map pair = ps) (pairs' : b.terms.map pair = qs)
    (bounded : IsBounded (powersOf (ps ++ qs.map negated))) : (a.joinOver b).Composed := by
  refine left.quotient right ?_
  rwa [powers, powers, pairs, pairs', sub_eq_add_neg, ← neg_one_smul ℤ, ← UnitTerm.powersOf_scale,
    ← UnitTerm.negated_eq_scale, ← UnitTerm.powersOf_append]

theorem Composed.power_of_pairs (base : u.Composed) (pairs : u.terms.map pair = ps)
    (whole : Exponent.toInt? e = some n) (small : n.natAbs < 2 ^ 24)
    (bounded : IsBounded (powersOf (ps.map (scale n)))) : (u.pow e).Composed := by
  refine base.power whole small ?_
  rwa [powers, pairs, ← UnitTerm.powersOf_scale]

/-! ## Composed units -/

theorem IsProduct.readable (product : u.IsProduct)
    (parts : ∀ part : List (UnitTerm ℝ Float32), part.Sublist u.terms → IsBounded (powers part)) :
    Readable (u.terms.map pair) where
  known := List.forall_mem_map.2 fun t within => product.known t.name <| by
    rw [product.areWhole.powers_of_mem within]
    exact product.nonzero t within
  nonzero := List.forall_mem_map.2 product.nonzero
  small := List.forall_mem_map.2 fun t within => (product.areWhole.whole t within).natAbs_lt
  distinct := by
    rw [UnitTerm.map_fst_pair]
    exact product.areWhole.distinct
  dimension part inside := by
    obtain ⟨part', inside', rfl⟩ := List.sublist_map_iff.1 inside
    exact (parts part' inside').dimension

/-- The text of a composed unit with a term at least parses back, to a unit with the same text, the
same dimension and the same factor, if no product of some of its terms has an exponent that reaches
the bound. -/
theorem Composed.parse_text (composed : u.Composed) (nonempty : u.terms ≠ [])
    (parts : ∀ part : List (UnitTerm ℝ Float32), part.Sublist u.terms → IsBounded (powers part)) :
    ∃ v : MeasureUnit ℝ Float32, Catalogue.parse u.text = .ok v ∧ v.text = u.text ∧
      (v.dimension == u.dimension) = true ∧ v.factor = u.factor := by
  have product := composed.isProduct
  have readable := product.readable parts
  have text := product.text.trans (UnitTerm.render_eq product.areWhole.whole)
  obtain ⟨v, denotes, read, pairs⟩ := reads_fraction (by simpa using nonempty) readable
  have same : powers v.terms = powers u.terms := by
    rw [powers, pairs]
    exact UnitTerm.powersOf_perm (UnitTerm.raised_append_under readable.nonzero)
  refine ⟨v, ?_, ?_, ?_, ?_⟩
  · rw [text]
    exact denotes.parse
  · obtain ⟨front, behind⟩ := UnitTerm.raised_sorted (u.terms.map pair)
    rw [read.text, UnitTerm.render_eq read.areWhole.whole, pairs, front, behind, text]
  · refine Dimension.beq_of_exponent fun k => ?_
    have own := read.dimension k
    rw [same] at own
    exact (own.beq_iff (product.dimension k)).2 rfl
  · refine Real.log_injOn_pos read.positive product.positive ?_
    rw [read.log, product.log, same]

/-- The text `N·m^2/s` parses back. -/
theorem parse_text_square : ∃ u : MeasureUnit ℝ Float32, u.Composed ∧ u.terms ≠ [] ∧
    (∀ part : List (UnitTerm ℝ Float32), part.Sublist u.terms → IsBounded (powers part)) ∧
    u.text = "N·m^2/s" ∧
    ∃ v : MeasureUnit ℝ Float32, Catalogue.parse u.text = .ok v ∧ v.text = u.text ∧
      (v.dimension == u.dimension) = true ∧ v.factor = u.factor := by
  obtain ⟨newton, foundNewton⟩ : ∃ u : MeasureUnit ℝ Float32, Catalogue.find? "N" = some u :=
    ⟨_, rfl⟩
  obtain ⟨metre, foundMetre⟩ : ∃ u : MeasureUnit ℝ Float32, Catalogue.find? "m" = some u :=
    ⟨_, rfl⟩
  obtain ⟨second, foundSecond⟩ : ∃ u : MeasureUnit ℝ Float32, Catalogue.find? "s" = some u :=
    ⟨_, rfl⟩
  have two : Exponent.toInt? (1 + 1 : Float32) = some 2 := by decide +kernel
  have square : (metre.pow (1 + 1)).Composed :=
    (Composed.symbol foundMetre).power_of_pairs (IsProduct.of_symbol foundMetre).2 two (by decide)
      (.of_sum (by decide) (by decide))
  have pairsSquare : (metre.pow (1 + 1)).terms.map pair = [("m", 2)] := by
    cases foundMetre
    decide +kernel
  have product : (newton.join (metre.pow (1 + 1))).Composed :=
    (Composed.symbol foundNewton).product_of_pairs square (IsProduct.of_symbol foundNewton).2
      pairsSquare (.of_sum (by decide) (by decide))
  have pairsProduct : (newton.join (metre.pow (1 + 1))).terms.map pair = [("N", 1), ("m", 2)] := by
    cases foundNewton
    cases foundMetre
    decide +kernel
  have composed : ((newton.join (metre.pow (1 + 1))).joinOver second).Composed :=
    product.quotient_of_pairs (.symbol foundSecond) pairsProduct
      (IsProduct.of_symbol foundSecond).2 (.of_sum (by decide) (by decide))
  have shown : ((newton.join (metre.pow (1 + 1))).joinOver second).text = "N·m^2/s" ∧
      ((newton.join (metre.pow (1 + 1))).joinOver second).terms.map pair =
        [("N", 1), ("m", 2), ("s", -1)] := by
    cases foundNewton
    cases foundMetre
    cases foundSecond
    decide +kernel
  obtain ⟨text, pairs⟩ := shown
  have nonempty : ((newton.join (metre.pow (1 + 1))).joinOver second).terms ≠ [] := by
    intro none
    rw [none] at pairs
    cases pairs
  have parts : ∀ part : List (UnitTerm ℝ Float32),
      part.Sublist ((newton.join (metre.pow (1 + 1))).joinOver second).terms →
        IsBounded (powers part) := fun part inside =>
    isBounded_part (by rw [pairs]; decide) (by rw [pairs]; decide) inside
  exact ⟨_, composed, nonempty, parts, text, composed.parse_text nonempty parts⟩

/-! ## Rounded exponents -/

section Rounded

variable {c minute watt second : MeasureUnit ℝ Float32} {f : Float32}

/-- A slash in front of the last power belongs to the power before it. -/
theorem parse_three_powers {x y z : String} (foundX : Catalogue.find? x = some a)
    (foundY : Catalogue.find? y = some b) (foundZ : Catalogue.find? z = some c) (k m n : ℕ) :
    Catalogue.parse (x ++ "^" ++ toString k ++ "·" ++ (y ++ "^" ++ toString m) ++ "/" ++
        (z ++ "^" ++ toString n)) =
      .ok ((a.pow (Number.toSingle k)).join
        ((b.pow (Number.toSingle m)).joinOver (c.pow (Number.toSingle n)))) := by
  have quotient := ((denotes_power foundY m).looser (by decide)).op (c := '/') (o := .div)
    (by decide) (denotes_power foundZ n) rfl
  have product : Denotes Catalogue.find? loosest _ _ :=
    ((denotes_power foundX k).looser (by decide)).op (c := '·') (o := .mul) (by decide) quotient rfl
  refine Denotes.parse ?_
  simpa using product

/-- The times of `min^2` and `s^2` cancel before the watts come, so nothing is rounded while this
unit is built. -/
theorem composed_large (foundMinute : Catalogue.find? "min" = some minute)
    (foundSecond : Catalogue.find? "s" = some second) (foundWatt : Catalogue.find? "W" = some watt)
    (two : e = .ofBits 0x40000000) (many : f = .ofBits 0x4aaaaaaa) :
    (((minute.pow e).joinOver (second.pow e)).join (watt.pow f)).Composed := by
  have twice : Exponent.toInt? e = some 2 := by
    rw [two]
    decide +kernel
  have often : Exponent.toInt? f = some 5592405 := by
    rw [many]
    decide +kernel
  have minutes : (minute.pow e).Composed :=
    (Composed.symbol foundMinute).power_of_pairs (IsProduct.of_symbol foundMinute).2 twice
      (by decide) (.of_sum (by decide) (by decide))
  have seconds : (second.pow e).Composed :=
    (Composed.symbol foundSecond).power_of_pairs (IsProduct.of_symbol foundSecond).2 twice
      (by decide) (.of_sum (by decide) (by decide))
  have watts : (watt.pow f).Composed :=
    (Composed.symbol foundWatt).power_of_pairs (IsProduct.of_symbol foundWatt).2 often (by decide)
      (.of_distinct (by decide) (by decide) (by decide +kernel))
  have pairsMinutes : (minute.pow e).terms.map pair = [("min", 2)] := by
    cases foundMinute
    cases two
    decide +kernel
  have pairsSeconds : (second.pow e).terms.map pair = [("s", 2)] := by
    cases foundSecond
    cases two
    decide +kernel
  have pairsWatts : (watt.pow f).terms.map pair = [("W", 5592405)] := by
    cases foundWatt
    cases many
    decide +kernel
  have pairsRatio : ((minute.pow e).joinOver (second.pow e)).terms.map pair =
      [("min", 2), ("s", -2)] := by
    cases foundMinute
    cases foundSecond
    cases two
    decide +kernel
  exact (minutes.quotient_of_pairs seconds pairsMinutes pairsSeconds
    (.of_sum (by decide) (by decide))).product_of_pairs watts pairsRatio pairsWatts
      (.of_distinct (by decide) (by decide) (by decide +kernel))

/-- In `W^5592405/s^2` an exponent reaches the bound, though none did while the unit with the text
`min^2·W^5592405/s^2` was built. -/
theorem partial_product_rounds : ∃ u v : MeasureUnit ℝ Float32, u.Composed ∧ u.terms ≠ [] ∧
    u.text = "min^2·W^5592405/s^2" ∧ Catalogue.parse u.text = .ok v ∧
    (v.dimension == u.dimension) = false := by
  obtain ⟨minute, foundMinute⟩ : ∃ u : MeasureUnit ℝ Float32, Catalogue.find? "min" = some u :=
    ⟨_, rfl⟩
  obtain ⟨second, foundSecond⟩ : ∃ u : MeasureUnit ℝ Float32, Catalogue.find? "s" = some u :=
    ⟨_, rfl⟩
  obtain ⟨watt, foundWatt⟩ : ∃ u : MeasureUnit ℝ Float32, Catalogue.find? "W" = some u := ⟨_, rfl⟩
  obtain ⟨e, two⟩ : ∃ e : Float32, e = .ofBits 0x40000000 := ⟨_, rfl⟩
  obtain ⟨f, many⟩ : ∃ f : Float32, f = .ofBits 0x4aaaaaaa := ⟨_, rfl⟩
  have shown : (((minute.pow e).joinOver (second.pow e)).join (watt.pow f)).terms ≠ [] ∧
      (((minute.pow e).joinOver (second.pow e)).join (watt.pow f)).text =
        "min^2·W^5592405/s^2" := by
    cases foundMinute
    cases foundSecond
    cases foundWatt
    cases two
    cases many
    decide +kernel
  obtain ⟨nonempty, text⟩ := shown
  have parsed := parse_three_powers foundMinute foundWatt foundSecond 2 5592405 2
  refine ⟨_, _, composed_large foundMinute foundSecond foundWatt two many, nonempty, text,
    (congrArg Catalogue.parse text).trans parsed, ?_⟩
  have isTwo : IsWhole e 2 := .of_toInt? (by rw [two]; decide +kernel) (by decide)
  have isMany : IsWhole f 5592405 := .of_toInt? (by rw [many]; decide +kernel) (by decide)
  have twice (d : Dimension Float32) : d.pow (Number.toSingle (2 : ℕ)) = d.pow e :=
    Dimension.pow_congr (isWhole_toSingle (by decide)) isTwo (by decide)
  have often (d : Dimension Float32) : d.pow (Number.toSingle (5592405 : ℕ)) = d.pow f :=
    Dimension.pow_congr (isWhole_toSingle (by decide)) isMany (by decide)
  show ((minute.dimension.pow (Number.toSingle (2 : ℕ)) *
    (watt.dimension.pow (Number.toSingle (5592405 : ℕ)) /
      second.dimension.pow (Number.toSingle (2 : ℕ)))) == _) = false
  rw [twice, twice, often]
  cases foundMinute
  cases foundSecond
  cases foundWatt
  cases two
  cases many
  decide +kernel

/-- A quotient of two large powers of one unit has the text of this unit, but another dimension:
the two dimensions were rounded. -/
theorem quotient_rounds : ∃ (u v watt : MeasureUnit ℝ Float32) (e f : Float32),
    Catalogue.find? "W" = some watt ∧ Exponent.toInt? e = some 16777215 ∧
    Exponent.toInt? f = some 16777214 ∧ u = (watt.pow e).joinOver (watt.pow f) ∧
    u.terms.map pair = [("W", 1)] ∧
    (∀ k, ∃ n ∈ Finset.Icc (-4) 4, Exponent.toInt? (u.dimension.exponent k) = some n) ∧
    Catalogue.parse u.text = .ok v ∧ (v.dimension == u.dimension) = false := by
  obtain ⟨watt, foundWatt⟩ : ∃ u : MeasureUnit ℝ Float32, Catalogue.find? "W" = some u := ⟨_, rfl⟩
  have parsed : Catalogue.parse "W" = .ok watt := by
    obtain ⟨nonempty, letters⟩ := Catalogue.symbol_spec foundWatt
    exact ((Denotes.name nonempty letters foundWatt).looser (Nat.zero_le _)).parse
  refine ⟨_, watt, watt, .ofBits 0x4b7fffff, .ofBits 0x4b7ffffe, foundWatt, by decide +kernel,
    by decide +kernel, rfl, ?_, ?_, ?_, ?_⟩
  · cases foundWatt
    decide +kernel
  · cases foundWatt
    decide +kernel
  · have text : ((watt.pow (.ofBits 0x4b7fffff)).joinOver (watt.pow (.ofBits 0x4b7ffffe))).text =
        "W" := by
      cases foundWatt
      decide +kernel
    rwa [text]
  · cases foundWatt
    decide +kernel

/-- The texts of units do not parse back where an exponent reaches the bound, be it while the unit
is built or only while its text is read. -/
theorem text_rounds :
    (∃ u v : MeasureUnit ℝ Float32, u.Composed ∧ u.terms ≠ [] ∧ u.text = "min^2·W^5592405/s^2" ∧
      Catalogue.parse u.text = .ok v ∧ (v.dimension == u.dimension) = false) ∧
    ∃ (u v watt : MeasureUnit ℝ Float32) (e f : Float32), Catalogue.find? "W" = some watt ∧
      Exponent.toInt? e = some 16777215 ∧ Exponent.toInt? f = some 16777214 ∧
      u = (watt.pow e).joinOver (watt.pow f) ∧ u.terms.map pair = [("W", 1)] ∧
      (∀ k, ∃ n ∈ Finset.Icc (-4) 4, Exponent.toInt? (u.dimension.exponent k) = some n) ∧
      Catalogue.parse u.text = .ok v ∧ (v.dimension == u.dimension) = false :=
  ⟨partial_product_rounds, quotient_rounds⟩

end Rounded

end MeasureUnit

end UnitCalc

end
