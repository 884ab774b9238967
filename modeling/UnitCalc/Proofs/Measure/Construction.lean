/-
# Units as they are built

Units are built from named ones by powers, by scaling with numbers, by merging terms, and as the
units of products and quotients of measurements. The same construction is carried out in the
arithmetic of the calculator and in exact arithmetic. In both the text of the unit is that of its
terms, none of which has the exponent zero. In exact arithmetic the dimension and the factor are
those of the product of the terms as well.

A number that scales is a term of its own, whose name is its text. Texts tell numbers apart, so
merging terms by their names never mixes up two numbers.

## Main definitions

* `Construction`: how a unit is built, and `Construction.unit?` builds it.
* `Arithmetic`: what names, numbers and exponents are in an arithmetic.
* `MeasureUnit.IsRendered`: no term has the exponent zero, and the text is that of the terms.
* `MeasureUnit.AmountsTo`: the unit is the product of the powers that its terms are.
* `Naming`: the dimension and the factor that each name stands for.

## Main results

* `Construction.Keeps.of_unit?`: what each operation keeps holds for the units that are built.
* `Construction.represents`: text, dimension and factor are those of the terms.
-/

import UnitCalc.Proofs.Measure.Composed
import UnitCalc.Proofs.Measure.Terms
import UnitCalc.Proofs.Number.Shortest

noncomputable section

namespace UnitCalc

open Number (ofDouble ofSingle)

variable {R E : Type} [Scalar R] [Exponent E] {u v w : MeasureUnit R E}

/-! ## Terms and texts -/

/-- One is told apart from zero, and it is positive. -/
class ProperOne (E : Type) [Exponent E] : Prop where
  ne_zero : ((1 : E) != 0) = true
  eq_one : ((1 : E) == 1) = true
  pos : (0 : E) < 1
  not_neg : ¬ (1 : E) < 0

instance : ProperOne Float32 where
  ne_zero := by decide +kernel
  eq_one := by decide +kernel
  pos := by decide +kernel
  not_neg := by decide +kernel

instance : ProperOne ℝ where
  ne_zero := bne_iff_ne.2 one_ne_zero
  eq_one := beq_self_eq_true 1
  pos := zero_lt_one
  not_neg := zero_lt_one.not_gt

namespace MeasureUnit

/-- No term has the exponent zero, and the text is that of the terms. -/
structure IsRendered (u : MeasureUnit R E) : Prop where
  nonzero : ∀ t ∈ u.terms, (t.exponent != 0) = true
  text : u.text = UnitTerm.render u.terms

/-- Units built from the terms that are left when those with exponent zero are dropped. -/
theorem isRendered_ofTerms (dimension : Dimension E) (factor : R) (terms : List (UnitTerm R E)) :
    (ofTerms dimension factor (terms.filter fun t => t.exponent != 0)).IsRendered :=
  ⟨fun _ within => (List.mem_filter.1 within).2, rfl⟩

variable [ProperOne E]

theorem isRendered_named (name : String) (dimension : Dimension E) (factor : R) :
    (named name dimension factor).IsRendered where
  nonzero := List.forall_mem_singleton.2 ProperOne.ne_zero
  text := by
    have raised : decide ((0 : E) < 1) = true := decide_eq_true ProperOne.pos
    have under : decide ((1 : E) < 0) = false := decide_eq_false ProperOne.not_neg
    simp only [named, UnitTerm.render, List.filter_cons, raised, under, List.filter_nil,
      if_true, Bool.false_eq_true, if_false, List.map_cons, List.map_nil, UnitTerm.powerText,
      ProperOne.eq_one, String.intercalate_singleton]
    rfl

theorem IsRendered.scaled (rendered : u.IsRendered) (k : R) : (u.scaled k).IsRendered := by
  rw [MeasureUnit.scaled]
  split_ifs
  · exact rendered
  · exact ⟨List.forall_mem_cons.2 ⟨ProperOne.ne_zero, rendered.nonzero⟩, rfl⟩

end MeasureUnit

/-! ## Constructions -/

/-- The ways to make one unit of two: merging the terms of factors or of a divisor, and the units of
products and quotients of measurements. -/
inductive Combination where
  | join
  | joinOver
  | multiply
  | divide

/-- How a unit is built from named units. -/
inductive Construction where
  | named (name : String)
  | pow (base : Construction) (n : Float32)
  | scaled (base : Construction) (k : Float)
  | combined (way : Combination) (a b : Construction)
  | withFormat (base : Construction) (format : String)

/-- What names stand for in an arithmetic, and what its numbers and exponents are. -/
structure Arithmetic (R E : Type) where
  dimension : String → Dimension E
  factor : String → R
  number : Float → R
  exponent : Float32 → E

variable [Narrowing R E]

namespace Combination

/-- The unit of the combination, if it has one: products and quotients of measurements may be plain
numbers. -/
def combine? : Combination → MeasureUnit R E → MeasureUnit R E → Option (MeasureUnit R E)
  | join, u, v => some (u.join v)
  | joinOver, u, v => some (u.joinOver v)
  | multiply, u, v => (u.multiply? v).2
  | divide, u, v => (u.divide? v).2

/-- A combination is one of the units, a power of one, or both joined. -/
theorem forms_of_combine? {way : Combination} (combined : way.combine? u v = some w) :
    (w = u ∨ w = v) ∨ (w = u.pow (1 + 1) ∨ w = v.pow (-1)) ∨ w = u.join v ∨ w = u.joinOver v := by
  cases way with
  | join => exact .inr (.inr (.inl (Option.some.inj combined).symm))
  | joinOver => exact .inr (.inr (.inr (Option.some.inj combined).symm))
  | multiply =>
    simp only [combine?, MeasureUnit.multiply?] at combined
    split_ifs at combined
    · exact .inl (.inl (Option.some.inj combined).symm)
    · exact .inl (.inr (Option.some.inj combined).symm)
    · exact .inr (.inl (.inl (Option.some.inj combined).symm))
    · exact .inr (.inr (.inl (MeasureUnit.eq_of_reduced (Prod.ext rfl combined)).symm))
  | divide =>
    simp only [combine?, MeasureUnit.divide?] at combined
    split_ifs at combined
    · exact .inl (.inl (Option.some.inj combined).symm)
    · exact .inr (.inl (.inr (Option.some.inj combined).symm))
    · exact .inr (.inr (.inr (MeasureUnit.eq_of_reduced (Prod.ext rfl combined)).symm))

end Combination

namespace Construction

variable {r : Arithmetic R E} {t : Construction}

/-- The names of the units that are used. -/
def names : Construction → List String
  | named name => [name]
  | pow base _ | scaled base _ | withFormat base _ => base.names
  | combined _ a b => a.names ++ b.names

/-- The numbers that units are scaled with. -/
def numbers : Construction → List Float
  | named _ => []
  | scaled base k => k :: base.numbers
  | pow base _ | withFormat base _ => base.numbers
  | combined _ a b => a.numbers ++ b.numbers

/-- Builds the unit, if every combination on the way has one. -/
def unit? (r : Arithmetic R E) : Construction → Option (MeasureUnit R E)
  | named name => some (.named name (r.dimension name) (r.factor name))
  | pow base n => (base.unit? r).map fun u => u.pow (r.exponent n)
  | scaled base k => (base.unit? r).map fun u => u.scaled (r.number k)
  | combined way a b => do way.combine? (← a.unit? r) (← b.unit? r)
  | withFormat base format => (base.unit? r).map fun u => u.withFormat format

/-- A property holds for units of these names, and operations with these numbers keep it. -/
structure Keeps (r : Arithmetic R E) (names : List String) (numbers : List Float)
    (P : MeasureUnit R E → Prop) : Prop where
  named : ∀ name ∈ names, P (.named name (r.dimension name) (r.factor name))
  pow : ∀ u e, P u → P (u.pow e)
  scaled : ∀ u, ∀ k ∈ numbers, P u → P (u.scaled (r.number k))
  join : ∀ u v, P u → P v → P (u.join v)
  joinOver : ∀ u v, P u → P v → P (u.joinOver v)
  withFormat : ∀ u format, P u → P (u.withFormat format)

/-- What the operations keep holds for the units that are built. -/
theorem Keeps.of_unit? {names : List String} {numbers : List Float} {P : MeasureUnit R E → Prop}
    (keeps : Keeps r names numbers P) (within : t.names ⊆ names) (within' : t.numbers ⊆ numbers)
    (built : t.unit? r = some u) : P u := by
  induction t generalizing u with
  | named name =>
    obtain rfl := Option.some.inj built
    exact keeps.named name (within (List.mem_singleton_self name))
  | pow base n ih =>
    obtain ⟨v, before, rfl⟩ := Option.map_eq_some_iff.1 built
    exact keeps.pow v _ (ih within within' before)
  | scaled base k ih =>
    obtain ⟨v, before, rfl⟩ := Option.map_eq_some_iff.1 built
    obtain ⟨own, within'⟩ := List.cons_subset.1 within'
    exact keeps.scaled v k own (ih within within' before)
  | withFormat base format ih =>
    obtain ⟨v, before, rfl⟩ := Option.map_eq_some_iff.1 built
    exact keeps.withFormat v format (ih within within' before)
  | combined way a b ihLeft ihRight =>
    obtain ⟨v, left, built⟩ := Option.bind_eq_some_iff.1 built
    obtain ⟨w, right, combined⟩ := Option.bind_eq_some_iff.1 built
    obtain ⟨withinLeft, withinRight⟩ := List.append_subset.1 within
    obtain ⟨withinLeft', withinRight'⟩ := List.append_subset.1 within'
    have first : P v := ihLeft withinLeft withinLeft' left
    have second : P w := ihRight withinRight withinRight' right
    rcases Combination.forms_of_combine? combined with
      (rfl | rfl) | (rfl | rfl) | rfl | rfl
    · exact first
    · exact second
    · exact keeps.pow v _ first
    · exact keeps.pow w _ second
    · exact keeps.join v w first second
    · exact keeps.joinOver v w first second

end Construction

/-- Units are rendered in any arithmetic with a proper one. -/
theorem Construction.keeps_isRendered [ProperOne E] (r : Arithmetic R E) (names : List String)
    (numbers : List Float) : Keeps r names numbers MeasureUnit.IsRendered where
  named name _ := MeasureUnit.isRendered_named name _ _
  pow _ _ _ := MeasureUnit.isRendered_ofTerms _ _ _
  scaled _ _ _ rendered := rendered.scaled _
  join _ _ _ _ := MeasureUnit.isRendered_ofTerms _ _ _
  joinOver _ _ _ _ := MeasureUnit.isRendered_ofTerms _ _ _
  withFormat _ _ rendered := ⟨rendered.nonzero, rendered.text⟩

/-! ## Exact arithmetic -/

namespace Number

open Classical in
/-- The text of a real number that is a positive double. -/
def exactText (x : ℝ) : String :=
  if double : ∃ k : Float, 0 < ofDouble k ∧ ofDouble k = x then Scalar.text double.choose else ""

theorem exactText_ofDouble {k : Float} (positive : 0 < ofDouble k) :
    exactText (ofDouble k) = Scalar.text k := by
  have double : ∃ l : Float, 0 < ofDouble l ∧ ofDouble l = ofDouble k := ⟨k, positive, rfl⟩
  rw [exactText, dif_pos double]
  exact (text_eq_text_iff double.choose_spec.1 positive).2 double.choose_spec.2

/-- Real numbers as scalars, with the texts of the doubles among them. -/
@[reducible]
def exactScalar : Scalar ℝ where
  __ := (inferInstance : Scalar ℝ)
  text := exactText

end Number

attribute [local instance] Number.exactScalar

namespace UnitTerm

variable {amount : TermBase ℝ → Amount}

theorem value_total (terms : List (UnitTerm ℝ ℝ)) : (total amount terms).value =
    (terms.map fun t => (amount t.base).value ^ t.exponent).prod := by
  induction terms with
  | nil => rfl
  | cons t terms ih =>
    rw [total_cons, List.map_cons, List.prod_cons, ← ih]
    rfl

theorem exponent_total (terms : List (UnitTerm ℝ ℝ)) (k : Fin 9) :
    (total amount terms).dimension.exponent k =
      (terms.map fun t => t.exponent * (amount t.base).dimension.exponent k).sum := by
  induction terms with
  | nil => fin_cases k <;> rfl
  | cons t terms ih =>
    rw [total_cons, List.map_cons, List.sum_cons, ← ih, mul_comm t.exponent,
      ← Dimension.exponent_pow]
    exact Dimension.exponent_mul _ _ k

end UnitTerm

namespace MeasureUnit

variable {u v : MeasureUnit ℝ ℝ} {x : ℝ}

/-- How much one of a unit is. -/
def amount (u : MeasureUnit ℝ ℝ) : Amount :=
  ⟨u.factor, u.dimension⟩

theorem amount_scaled (u : MeasureUnit ℝ ℝ) (k : ℝ) :
    (u.scaled k).amount = ⟨k, .none⟩ * u.amount := by
  rw [scaled]
  split_ifs with one
  · obtain rfl : k = 1 := beq_iff_eq.1 one
    exact (one_mul u.amount).symm
  · exact Amount.ext (mul_comm _ _) (Dimension.none_mul _).symm

theorem amount_joinWith (sign : x = 1 ∨ x = -1) :
    (u.joinWith x v).amount = u.amount * v.amount.raised x := by
  -- The dimension does not go through the power: it is a product or a quotient by the sign.
  rcases sign with rfl | rfl
  · refine Amount.ext rfl ((if_pos zero_lt_one).trans ?_)
    exact congrArg (u.dimension * ·) v.dimension.pow_one.symm
  · refine Amount.ext rfl ((if_neg neg_one_lt_zero.not_gt).trans ?_)
    ext <;> exact (sub_eq_add_neg _ _).trans (congrArg _ (mul_neg_one _).symm)

variable {amount : TermBase ℝ → Amount} {known : Set (TermBase ℝ)}

/-- The terms are of what is known, and the unit is the product of their powers. -/
structure AmountsTo (amount : TermBase ℝ → Amount) (known : Set (TermBase ℝ))
    (u : MeasureUnit ℝ ℝ) : Prop where
  within : ∀ t ∈ u.terms, t.base ∈ known
  total : u.amount = UnitTerm.total amount u.terms

namespace AmountsTo

theorem named {name : String} {m : Amount} (own : .named name ∈ known)
    (same : amount (.named name) = m) :
    AmountsTo amount known (.named name m.dimension m.value) where
  within := List.forall_mem_singleton.2 own
  total := by
    show m = UnitTerm.total amount [⟨.named name, 1⟩]
    rw [UnitTerm.total_cons, UnitTerm.total_nil, mul_one, Amount.raised_one, same]

theorem scaled {k : ℝ} (parts : u.AmountsTo amount known) (own : .number k ∈ known)
    (same : amount (.number k) = ⟨k, .none⟩) : (u.scaled k).AmountsTo amount known where
  within := by
    rw [MeasureUnit.scaled]
    split_ifs
    · exact parts.within
    · exact List.forall_mem_cons.2 ⟨own, parts.within⟩
  total := by
    rw [amount_scaled, MeasureUnit.scaled]
    split_ifs with one
    · obtain rfl : k = 1 := beq_iff_eq.1 one
      exact (one_mul u.amount).trans parts.total
    · show _ = UnitTerm.total amount (⟨.number k, 1⟩ :: u.terms)
      rw [UnitTerm.total_cons, Amount.raised_one, same, parts.total]

variable (faithful : UnitTerm.IsFaithful amount known)
include faithful

theorem pow (parts : u.AmountsTo amount known) (x : ℝ) : (u.pow x).AmountsTo amount known where
  within t kept := by
    obtain ⟨before, inside, rfl⟩ := List.mem_map.1 (List.mem_filter.1 kept).1
    exact parts.within before inside
  total := by
    show u.amount.raised x = _
    rw [parts.total]
    exact ((UnitTerm.total_filter _).trans
      (faithful.total_map (fun _ => rfl) parts.within)).symm

theorem joinWith (parts : u.AmountsTo amount known) (parts' : v.AmountsTo amount known)
    (sign : x = 1 ∨ x = -1) : (u.joinWith x v).AmountsTo amount known := by
  -- The sign is given to all terms before the first of them is merged.
  let signed := v.terms.map fun t => { t with exponent := x * t.exponent }
  have within : ∀ t ∈ signed, t.base ∈ known := by
    intro t signed
    obtain ⟨before, inside, rfl⟩ := List.mem_map.1 signed
    exact parts'.within before inside
  obtain ⟨all, product⟩ := faithful.total_foldl_merge parts.within within
  have terms : (u.joinWith x v).terms =
      (signed.foldl UnitTerm.merge u.terms).filter fun t => t.exponent != 0 := by
    rw [List.foldl_map]
    rfl
  constructor
  · rw [terms]
    exact fun t inside => all t (List.mem_filter.1 inside).1
  · rw [terms, UnitTerm.total_filter, product, amount_joinWith sign, parts.total, parts'.total,
      faithful.total_map (fun e => mul_comm x e) parts'.within]

end AmountsTo

end MeasureUnit

/-! ## Names with a dimension and a factor -/

/-- The dimension and the factor that each name stands for. -/
structure Naming where
  dimension : String → Dimension Float32
  factor : String → Float

namespace Naming

/-- The arithmetic of the calculator. -/
def running (n : Naming) : Arithmetic Float Float32 :=
  ⟨n.dimension, n.factor, id, id⟩

/-- Exact arithmetic, on the numbers that doubles and singles are. -/
def exact (n : Naming) : Arithmetic ℝ ℝ :=
  ⟨fun name => (n.dimension name).map ofSingle, fun name => ofDouble (n.factor name), ofDouble,
    ofSingle⟩

/-- What a term is a power of: a unit has the dimension and the factor of its name, and a number has
no dimension. -/
def amount (n : Naming) : TermBase ℝ → Amount
  | .named name => ⟨n.exact.factor name, n.exact.dimension name⟩
  | .number k => ⟨k, .none⟩

/-- The dimension of a unit is the sum of those of its terms, and its factor is the product of their
powers. -/
structure Represents (n : Naming) (u : MeasureUnit ℝ ℝ) : Prop where
  dimension : ∀ k : Fin 9, u.dimension.exponent k =
    (u.terms.map fun t => t.exponent * (n.amount t.base).dimension.exponent k).sum
  factor : u.factor = (u.terms.map fun t => (n.amount t.base).value ^ t.exponent).prod

/-- The amount that a unit comes to gives its dimension and its factor. -/
theorem represents_of_amountsTo {n : Naming} {known : Set (TermBase ℝ)} {u : MeasureUnit ℝ ℝ}
    (parts : u.AmountsTo n.amount known) : n.Represents u where
  dimension k :=
    (congrArg (fun m : Amount => m.dimension.exponent k) parts.total).trans
      (UnitTerm.exponent_total u.terms k)
  factor := (congrArg Amount.value parts.total).trans (UnitTerm.value_total u.terms)

end Naming

namespace Construction

variable {n : Naming} {t : Construction}

/-- Names stand for positive factors, units are scaled with positive finite numbers, and a name that
is the text of such a number stands for the number. -/
structure IsConsistent (t : Construction) (n : Naming) : Prop where
  factors : ∀ name ∈ t.names, 0 < ofDouble (n.factor name)
  numbers : ∀ k ∈ t.numbers, 0 < ofDouble k
  single : ∀ k ∈ t.numbers, Scalar.text k ∈ t.names →
    n.amount (.named (Scalar.text k)) = n.amount (.number (ofDouble k))

/-- Symbols of units have no digits, so none of them is the text of a number. -/
theorem isConsistent_of_noDigit (factors : ∀ name ∈ t.names, 0 < ofDouble (n.factor name))
    (numbers : ∀ k ∈ t.numbers, 0 < ofDouble k)
    (noDigit : ∀ name ∈ t.names, ∀ c ∈ name.toList, c.isDigit = false) : t.IsConsistent n where
  factors := factors
  numbers := numbers
  single k within named := by
    obtain ⟨c, inside, digit⟩ := Number.exists_isDigit_text (numbers k within)
    exact absurd digit (Bool.eq_false_iff.1 (noDigit _ named c inside))

/-- The names and the numbers of a construction. -/
def known (t : Construction) : Set (TermBase ℝ) :=
  { b | (∃ name ∈ t.names, b = .named name) ∨ ∃ k ∈ t.numbers, b = .number (ofDouble k) }

/-- Names and numbers stand for one positive amount each. -/
theorem IsConsistent.isFaithful (consistent : t.IsConsistent n) :
    UnitTerm.IsFaithful n.amount t.known where
  positive := by
    rintro _ (⟨name, within, rfl⟩ | ⟨k, within, rfl⟩)
    · exact consistent.factors name within
    · exact consistent.numbers k within
  single := by
    have text {k : Float} (within : k ∈ t.numbers) : Scalar.text (ofDouble k) = Scalar.text k :=
      Number.exactText_ofDouble (consistent.numbers k within)
    -- Terms of one name are of one unit, of a unit and a number that it is called like, or of one
    -- number, since texts tell numbers apart.
    rintro ⟨_, e⟩ ⟨_, f⟩ (⟨name, within, rfl⟩ | ⟨k, within, rfl⟩)
      (⟨name', within', rfl⟩ | ⟨l, within', rfl⟩) same
    · obtain rfl : name = name' := same
      rfl
    · obtain rfl : name = Scalar.text l := same.trans (text within')
      exact consistent.single l within' within
    · obtain rfl : Scalar.text k = name' := (text within).symm.trans same
      exact (consistent.single k within within').symm
    · have same : Scalar.text k = Scalar.text l :=
        ((text within).symm.trans same).trans (text within')
      have one := (Number.text_eq_text_iff (consistent.numbers k within)
        (consistent.numbers l within')).1 same
      rw [one]

/-- In exact arithmetic the operations keep a unit the product of its terms. -/
theorem IsConsistent.keeps_amountsTo (consistent : t.IsConsistent n) :
    Keeps n.exact t.names t.numbers (MeasureUnit.AmountsTo n.amount t.known) where
  named name own :=
    .named (m := ⟨n.exact.factor name, n.exact.dimension name⟩) (.inl ⟨name, own, rfl⟩) rfl
  pow _ x parts := parts.pow consistent.isFaithful x
  scaled _ k own parts := parts.scaled (.inr ⟨k, own, rfl⟩) rfl
  join _ _ left right := left.joinWith consistent.isFaithful right (.inl rfl)
  joinOver _ _ left right := left.joinWith consistent.isFaithful right (.inr rfl)
  withFormat _ _ parts := ⟨parts.within, parts.total⟩

/-- The text of a unit is that of its terms, none of which has the exponent zero; in exact
arithmetic its dimension and its factor are those of the terms. -/
theorem represents (t : Construction) (n : Naming) :
    (∀ u, t.unit? n.running = some u → u.IsRendered) ∧
      (t.IsConsistent n →
        ∀ u, t.unit? n.exact = some u → u.IsRendered ∧ n.Represents u) := by
  constructor
  · intro u built
    exact (keeps_isRendered n.running t.names t.numbers).of_unit? (List.Subset.refl _)
      (List.Subset.refl _) built
  · intro consistent u built
    have rendered : u.IsRendered := (keeps_isRendered n.exact t.names t.numbers).of_unit?
      (List.Subset.refl _) (List.Subset.refl _) built
    have parts := consistent.keeps_amountsTo.of_unit? (List.Subset.refl _) (List.Subset.refl _)
      built
    exact ⟨rendered, Naming.represents_of_amountsTo parts⟩

/-- Kilometers and hours. -/
def roads : Naming where
  dimension name :=
    if name = "km" then { (Dimension.none : Dimension Float32) with length := 1 }
    else { (Dimension.none : Dimension Float32) with time := 1 }
  factor name := if name = "km" then 1000 else 3600

/-- A thousand kilometers in a thousand hours, where the numbers cancel. -/
def speed : Construction :=
  .combined .joinOver (.scaled (.named "km") 1000) (.scaled (.named "h") 1000)

theorem represents_speed : speed.IsConsistent roads ∧
    (speed.unit? roads.running).map (fun u => u.text) = some "km/h" ∧
      ∃ u, speed.unit? roads.exact = some u ∧ u.IsRendered ∧ roads.Represents u := by
  have thousand : 0 < ofDouble 1000 := by
    have decoded : Number.decodeDouble 1000 = .finite ⟨false, 8796093022208000, -43⟩ := rfl
    rw [ofDouble, decoded]
    norm_num [Number.Binary.value, Number.Binary.size, Number.Binary.lastPlace]
  have hour : 0 < ofDouble 3600 := by
    have decoded : Number.decodeDouble 3600 = .finite ⟨false, 7916483719987200, -41⟩ := rfl
    rw [ofDouble, decoded]
    norm_num [Number.Binary.value, Number.Binary.size, Number.Binary.lastPlace]
  have consistent : speed.IsConsistent roads := by
    apply isConsistent_of_noDigit
    · exact List.forall_mem_cons.2 ⟨thousand, List.forall_mem_singleton.2 hour⟩
    · exact List.forall_mem_cons.2 ⟨thousand, List.forall_mem_singleton.2 thousand⟩
    · decide
  exact ⟨consistent, by decide +kernel, _, rfl, (represents speed roads).2 consistent _ rfl⟩

end Construction

end UnitCalc

end
