/-
# Extreme values in exact arithmetic

The search for an extreme value keeps the better one of two inner points of its section, so no
value that it saw is better than both inner values that are left. But the answer is taken at an end
that was never moved, or else in the middle, and it is not compared with them. It is the best of
all values that were seen exactly if it is not worse than the two that are left. This holds for
objectives whose comparisons always point to the same end: the answer is the value there.

## Main definitions

* `Problem.Computes p f`: the objective has the values of the function `f`.
* `Section.Narrows`: the sections that a search passes through, with the points that it adds.

## Main results

* `Section.Narrows.notBeyond`: no value is better than both that are left.
* `Section.Narrows.forall_notBeyond_iff`: what is as good as both is as good as all values.
* `Section.Narrows.towards`: when all comparisons point to one end, this end is never moved.
* `Problem.exists_narrows`: the search always ends, and passes through such sections.
-/

import Mathlib.Order.Interval.Set.Basic
import Mathlib.Order.Monotone.Basic
import Mathlib.Tactic.Linarith
import Mathlib.Tactic.NormNum
import UnitCalc.Proofs.Calculator.Exact
import UnitCalc.Proofs.Method.Probes

namespace UnitCalc

open SessionM (outcome)
open Set (Icc)

/-! ## The parts of a search -/

section

variable {R E : Type} {m : Type → Type} [Scalar R]

/-- The section that a search between two points begins with, with the inner values. -/
def Section.first (start stop : R) (values : R → R) : Section R :=
  let lower := stop - Problem.goldenRatio * (stop - start)
  let upper := start + Problem.goldenRatio * (stop - start)
  { left := start, right := stop, lower, upper,
    lowerValue := values lower, upperValue := values upper }

/-- Where the answer is taken when a search between two points ends with a section. -/
def Section.answer (c : Section R) (start stop : R) : R :=
  if c.left == start then start
  else if c.right == stop then stop
  else (c.left + c.right) / 2.0

/-- A search makes a step when the interval is longer than this. -/
def Problem.firstLimit (p : Problem R E m) (start stop : R) : R :=
  p.precision * (Scalar.abs (stop - goldenRatio * (stop - start)) +
    Scalar.abs (start + goldenRatio * (stop - start))) / 2.0

/-- A search ends with the value at its answer. -/
theorem Problem.extremeValue_eq [Monad m] [MonadExceptOf CalcError m] (p : Problem R E m)
    (isMinimum : Bool) (start stop : R) :
    p.extremeValue isMinimum start stop = (do
      let lower := stop - goldenRatio * (stop - start)
      let upper := start + goldenRatio * (stop - start)
      let lowerValue ← p.value lower
      let upperValue ← p.value upper
      let c ← p.sectionFrom isMinimum (0.1 * (stop - start)) maxSections (p.firstLimit start stop)
        { left := start, right := stop, lower, upper, lowerValue, upperValue }
      p.value (c.answer start stop)) := by
  unfold extremeValue
  refine bind_congr fun lower => bind_congr fun upper => bind_congr fun c => ?_
  unfold Section.answer
  split
  · rfl
  · split <;> rfl

end

/-! ## Better and worse values -/

noncomputable section

/-- The value `a` is not better than `b` as a minimum or as a maximum. -/
def NotBeyond (isMinimum : Bool) (a b : ℝ) : Prop :=
  if isMinimum then b ≤ a else a ≤ b

variable {isMinimum : Bool}

theorem NotBeyond.refl (isMinimum : Bool) (a : ℝ) : NotBeyond isMinimum a a := by
  cases isMinimum <;> exact le_rfl

theorem NotBeyond.trans {a b c : ℝ} (first : NotBeyond isMinimum a b)
    (second : NotBeyond isMinimum b c) : NotBeyond isMinimum a c := by
  cases isMinimum
  · exact le_trans (α := ℝ) first second
  · exact le_trans (α := ℝ) second first

/-- All comparisons of a search on a function point to one end. Equal values point to the left in a
search for a maximum, and to the right in one for a minimum. -/
def LeadsTo (f : ℝ → ℝ) (start stop : ℝ) (isMinimum toLeft : Bool) : Prop :=
  if isMinimum = toLeft then StrictMonoOn f (Icc start stop) else AntitoneOn f (Icc start stop)

namespace LeadsTo

variable {f : ℝ → ℝ} {start stop x y : ℝ} {toLeft : Bool}

theorem points (leads : LeadsTo f start stop isMinimum toLeft) (first : x ∈ Icc start stop)
    (second : y ∈ Icc start stop) (less : x < y) :
    (isMinimum == decide (f x < f y)) = toLeft := by
  unfold LeadsTo at leads
  split at leads
  · next same =>
    rw [← same, decide_eq_true (leads first second less)]
    cases isMinimum <;> rfl
  · next other =>
    rw [decide_eq_false (leads first second less.le).not_gt]
    cases isMinimum <;> cases toLeft <;> first | rfl | exact absurd rfl other

/-- No value is better than the one at the end. -/
theorem notBeyond (leads : LeadsTo f start stop isMinimum toLeft) (inside : x ∈ Icc start stop) :
    NotBeyond isMinimum (f x) (f (if toLeft then start else stop)) := by
  have ends := inside.1.trans inside.2
  have first : start ∈ Icc start stop := ⟨le_rfl, ends⟩
  have last : stop ∈ Icc start stop := ⟨ends, le_rfl⟩
  unfold LeadsTo at leads
  cases isMinimum <;> cases toLeft
  · exact leads.monotoneOn inside last inside.2
  · exact leads first inside inside.1
  · exact leads inside last inside.2
  · exact leads.monotoneOn first inside inside.1

end LeadsTo

theorem goldenRatio_bounds :
    1 / 2 < (Problem.goldenRatio : ℝ) ∧ (Problem.goldenRatio : ℝ) < 1 := by
  unfold Problem.goldenRatio
  constructor <;> norm_num

namespace Section

variable {f : ℝ → ℝ} {c c' : Section ℝ} {xs : List ℝ} {start stop : ℝ}

/-- The values at the inner points are those of a function. -/
def HasValues (f : ℝ → ℝ) (c : Section ℝ) : Prop :=
  c.lowerValue = f c.lower ∧ c.upperValue = f c.upper

/-- The sections that a search passes through from `c` to `c'`, adding the points `xs`. -/
inductive Narrows (f : ℝ → ℝ) (isMinimum : Bool) : Section ℝ → List ℝ → Section ℝ → Prop
  | nil (c : Section ℝ) : Narrows f isMinimum c [] c
  | cons {c c' : Section ℝ} {xs : List ℝ} :
      Narrows f isMinimum
        (c.narrow (c.goesLeft isMinimum) (f (c.newPoint (c.goesLeft isMinimum)))) xs c' →
      Narrows f isMinimum c (c.newPoint (c.goesLeft isMinimum) :: xs) c'

theorem HasValues.narrow (has : c.HasValues f) (toLeft : Bool) :
    (c.narrow toLeft (f (c.newPoint toLeft))).HasValues f := by
  cases toLeft
  · exact ⟨has.2, rfl⟩
  · exact ⟨rfl, has.1⟩

/-- A step leaves the part with the better one of the inner values. -/
theorem notBeyond_of_goesLeft (c : Section ℝ) (isMinimum : Bool) :
    if c.goesLeft isMinimum then NotBeyond isMinimum c.upperValue c.lowerValue
    else NotBeyond isMinimum c.lowerValue c.upperValue := by
  unfold goesLeft
  rcases lt_or_ge c.lowerValue c.upperValue with less | more
  · cases isMinimum <;> simpa [NotBeyond, less] using le_of_lt less
  · cases isMinimum <;> simpa [NotBeyond, not_lt.2 more] using more

/-- What is not better than one of the inner values is not better than one of those that a step
leaves. -/
theorem notBeyond_narrow (c : Section ℝ) (y : ℝ) {v : ℝ}
    (within : NotBeyond isMinimum v c.lowerValue ∨ NotBeyond isMinimum v c.upperValue) :
    NotBeyond isMinimum v (c.narrow (c.goesLeft isMinimum) y).lowerValue ∨
      NotBeyond isMinimum v (c.narrow (c.goesLeft isMinimum) y).upperValue := by
  have kept := c.notBeyond_of_goesLeft isMinimum
  cases side : c.goesLeft isMinimum with
  | true =>
    rw [side, if_pos rfl] at kept
    exact .inr (within.elim id fun upper => upper.trans kept)
  | false =>
    rw [side, if_neg Bool.false_ne_true] at kept
    exact .inl (within.elim (fun lower => lower.trans kept) id)

/-- The new value is one of those that a step leaves. -/
theorem value_narrow (c : Section ℝ) (toLeft : Bool) (y : ℝ) :
    (c.narrow toLeft y).lowerValue = y ∨ (c.narrow toLeft y).upperValue = y := by
  cases toLeft
  · exact .inr rfl
  · exact .inl rfl

/-- The ends of a section with the inner points in order; the point that is left when a step goes to
one side has the golden ratio. -/
structure Within (start stop : ℝ) (toLeft : Bool) (c : Section ℝ) : Prop where
  start_le : start ≤ c.left
  left_lt : c.left < c.lower
  lower_lt : c.lower < c.upper
  upper_lt : c.upper < c.right
  le_stop : c.right ≤ stop
  golden : if toLeft then c.lower = c.right - Problem.goldenRatio * (c.right - c.left)
    else c.upper = c.left + Problem.goldenRatio * (c.right - c.left)

theorem within_first (f : ℝ → ℝ) (ascending : start < stop) (toLeft : Bool) :
    (first start stop f).Within start stop toLeft := by
  obtain ⟨half_lt, ratio_lt⟩ := goldenRatio_bounds
  have long := mul_pos (sub_pos.2 half_lt) (sub_pos.2 ascending)
  have short := mul_pos (sub_pos.2 ratio_lt) (sub_pos.2 ascending)
  refine ⟨le_rfl, ?_, ?_, ?_, le_rfl, by cases toLeft <;> rfl⟩
  · show start < stop - Problem.goldenRatio * (stop - start)
    linarith
  · show stop - Problem.goldenRatio * (stop - start) < start + Problem.goldenRatio * (stop - start)
    linarith
  · show start + Problem.goldenRatio * (stop - start) < stop
    linarith

theorem answer_of_left (left : c.left = start) : c.answer start stop = start :=
  if_pos (decide_eq_true left)

theorem answer_of_right (left : start < c.left) (right : c.right = stop) :
    c.answer start stop = stop :=
  (if_neg fun same => left.ne' (of_decide_eq_true same)).trans (if_pos (decide_eq_true right))

/-- Steps to one side keep the inner points in order. -/
theorem Within.narrow {toLeft : Bool} (within : c.Within start stop toLeft) (y : ℝ) :
    (c.narrow toLeft y).Within start stop toLeft := by
  obtain ⟨start_le, left_lt, lower_lt, upper_lt, le_stop, golden⟩ := within
  obtain ⟨-, ratio_lt⟩ := goldenRatio_bounds
  cases toLeft with
  | true =>
    have golden : c.lower = c.right - Problem.goldenRatio * (c.right - c.left) := golden
    have first := mul_pos (sub_pos.2 ratio_lt) (sub_pos.2 (left_lt.trans lower_lt))
    have second := mul_pos (sub_pos.2 ratio_lt) (sub_pos.2 upper_lt)
    refine ⟨start_le, ?_, ?_, lower_lt, upper_lt.le.trans le_stop, rfl⟩
    · show c.left < c.upper - Problem.goldenRatio * (c.upper - c.left)
      linarith
    · show c.upper - Problem.goldenRatio * (c.upper - c.left) < c.lower
      linarith
  | false =>
    have golden : c.upper = c.left + Problem.goldenRatio * (c.right - c.left) := golden
    have first := mul_pos (sub_pos.2 ratio_lt) (sub_pos.2 (lower_lt.trans upper_lt))
    have second := mul_pos (sub_pos.2 ratio_lt) (sub_pos.2 left_lt)
    refine ⟨start_le.trans left_lt.le, lower_lt, ?_, ?_, le_stop, rfl⟩
    · show c.upper < c.lower + Problem.goldenRatio * (c.right - c.lower)
      linarith
    · show c.lower + Problem.goldenRatio * (c.right - c.lower) < c.right
      linarith

theorem Within.lower_mem {toLeft : Bool} (within : c.Within start stop toLeft) :
    c.lower ∈ Icc start stop :=
  ⟨within.start_le.trans within.left_lt.le,
    (within.lower_lt.trans within.upper_lt).le.trans within.le_stop⟩

theorem Within.upper_mem {toLeft : Bool} (within : c.Within start stop toLeft) :
    c.upper ∈ Icc start stop :=
  ⟨within.start_le.trans (within.left_lt.trans within.lower_lt).le,
    within.upper_lt.le.trans within.le_stop⟩

theorem Within.newPoint_mem {toLeft : Bool} (within : c.Within start stop toLeft) :
    c.newPoint toLeft ∈ Icc start stop := by
  have next := within.narrow 0
  cases toLeft with
  | true => exact next.lower_mem
  | false => exact next.upper_mem

namespace Narrows

theorem hasValues (narrows : Narrows f isMinimum c xs c') (has : c.HasValues f) :
    c'.HasValues f := by
  induction narrows with
  | nil => exact has
  | cons _ ih => exact ih (has.narrow _)

/-- No value that was seen is better than both that are left. -/
theorem notBeyond (narrows : Narrows f isMinimum c xs c') {v : ℝ}
    (seen : v = c.lowerValue ∨ v = c.upperValue ∨ v ∈ xs.map f) :
    NotBeyond isMinimum v c'.lowerValue ∨ NotBeyond isMinimum v c'.upperValue := by
  have kept {c c' : Section ℝ} {xs : List ℝ} (narrows : Narrows f isMinimum c xs c')
      (within : NotBeyond isMinimum v c.lowerValue ∨ NotBeyond isMinimum v c.upperValue) :
      NotBeyond isMinimum v c'.lowerValue ∨ NotBeyond isMinimum v c'.upperValue := by
    induction narrows with
    | nil => exact within
    | cons _ ih => exact ih (notBeyond_narrow _ _ within)
  -- A value stays covered once it is one of the inner values, and the new value of a step becomes
  -- one of them. So the induction is on the steps, with `kept` for those that are left.
  induction narrows with
  | nil =>
    rcases seen with rfl | rfl | none
    · exact .inl (.refl _ _)
    · exact .inr (.refl _ _)
    · cases none
  | @cons c c' xs rest ih =>
    rcases seen with rfl | rfl | seen
    · exact kept rest (notBeyond_narrow _ _ (.inl (.refl _ _)))
    · exact kept rest (notBeyond_narrow _ _ (.inr (.refl _ _)))
    · rw [List.map_cons, List.mem_cons] at seen
      rcases seen with rfl | later
      · refine ih ?_
        rcases c.value_narrow (c.goesLeft isMinimum) (f (c.newPoint (c.goesLeft isMinimum)))
          with new | new
        · exact .inl new.symm
        · exact .inr (.inl new.symm)
      · exact ih (.inr (.inr later))

/-- The inner values that are left were seen. -/
theorem seen (narrows : Narrows f isMinimum c xs c') {v : ℝ}
    (left : v = c'.lowerValue ∨ v = c'.upperValue) :
    v = c.lowerValue ∨ v = c.upperValue ∨ v ∈ xs.map f := by
  induction narrows with
  | nil => exact left.imp_right .inl
  | @cons c c' xs rest ih =>
    cases side : c.goesLeft isMinimum with
    | true =>
      rw [side] at ih
      rcases ih left with new | kept | later
      · exact .inr (.inr (List.mem_cons.2 (.inl new)))
      · exact .inl kept
      · exact .inr (.inr (List.mem_cons_of_mem _ later))
    | false =>
      rw [side] at ih
      rcases ih left with kept | new | later
      · exact .inr (.inl kept)
      · exact .inr (.inr (List.mem_cons.2 (.inl new)))
      · exact .inr (.inr (List.mem_cons_of_mem _ later))

/-- A value is as good as all that were seen exactly if it is as good as both that are left. -/
theorem forall_notBeyond_iff (narrows : Narrows f isMinimum c xs c') (has : c.HasValues f)
    (y : ℝ) :
    (∀ x ∈ c.lower :: c.upper :: xs, NotBeyond isMinimum (f x) y) ↔
      NotBeyond isMinimum (f c'.lower) y ∧ NotBeyond isMinimum (f c'.upper) y := by
  have left := narrows.hasValues has
  have points (v : ℝ) : v ∈ (c.lower :: c.upper :: xs).map f ↔
      v = c.lowerValue ∨ v = c.upperValue ∨ v ∈ xs.map f := by
    rw [has.1, has.2, List.map_cons, List.map_cons, List.mem_cons, List.mem_cons]
  rw [← List.forall_mem_map (P := fun v => NotBeyond isMinimum v y), ← left.1, ← left.2]
  constructor
  · intro best
    have worse (v : ℝ) (last : v = c'.lowerValue ∨ v = c'.upperValue) : NotBeyond isMinimum v y :=
      best v ((points v).2 (narrows.seen last))
    exact ⟨worse _ (.inl rfl), worse _ (.inr rfl)⟩
  · rintro ⟨lower, upper⟩ v within
    rcases narrows.notBeyond ((points v).1 within) with worse | worse
    · exact worse.trans lower
    · exact worse.trans upper

/-- When all comparisons of an objective point to the same end, this end is never moved, and a
step moves the other one. -/
theorem towards (narrows : Narrows f isMinimum c xs c') {toLeft : Bool}
    (leads : LeadsTo f start stop isMinimum toLeft) (has : c.HasValues f)
    (within : c.Within start stop toLeft) :
    (∀ x ∈ xs, x ∈ Icc start stop) ∧
      if toLeft then c'.left = c.left
      else c'.right = c.right ∧ c.left ≤ c'.left ∧ (xs ≠ [] → c.left < c'.left) := by
  induction narrows with
  | nil => cases toLeft <;> simp
  | @cons c c' xs rest ih =>
    have side : c.goesLeft isMinimum = toLeft := by
      rw [← leads.points within.lower_mem within.upper_mem within.lower_lt, ← has.1, ← has.2]
      rfl
    rw [side] at ih ⊢
    obtain ⟨inside, ends⟩ := ih (has.narrow toLeft) (within.narrow _)
    refine ⟨List.forall_mem_cons.2 ⟨within.newPoint_mem, inside⟩, ?_⟩
    cases toLeft with
    | true => exact ends
    | false =>
      obtain ⟨right, le, -⟩ := ends
      have moved : c.left < c'.left := within.left_lt.trans_le le
      exact ⟨right, moved.le, fun _ => moved⟩

end Narrows

end Section

namespace Problem

variable {E : Type} {p : Problem ℝ E SessionM} {f : ℝ → ℝ} {s s' : Session}
  {log : List (ℝ × Quantity ℝ E)} {start stop : ℝ}

/-- The objective has the values of a real function, in every session. -/
def Computes (p : Problem ℝ E SessionM) (f : ℝ → ℝ) : Prop :=
  ∀ x s, ∃ q s', outcome (p.objective x) s = (.ok q, s') ∧ q.re = f x ∧ q.isReal = true

theorem Computes.re_eq (computes : p.Computes f) {x : ℝ} {q : Quantity ℝ E}
    (probed : outcome (p.objective x) s = (.ok q, s')) : q.re = f x := by
  obtain ⟨q', s₁, ended, value, -⟩ := computes x s
  cases probed.symm.trans ended
  exact value

theorem Computes.exists_value (computes : p.Computes f) (x : ℝ)
    (u : Option (MeasureUnit ℝ E)) (s : Session) :
    ∃ q s', outcome (p.objective x) s = (.ok q, s') ∧ q.re = f x ∧
      outcome ((p.value x).run u) s = (.ok (f x, q.unit), s') := by
  obtain ⟨q, s', probed, value, real⟩ := computes x s
  exact ⟨q, s', probed, value, value ▸ value_of_objective_ok probed real rfl u⟩

theorem Probes.re_eq (computes : p.Computes f) (probes : p.Probes s log s') :
    ∀ e ∈ log, e.2.re = f e.1 := by
  induction probes with
  | nil => exact nofun
  | cons probed _ ih => exact List.forall_mem_cons.2 ⟨computes.re_eq probed, ih⟩

/-- A search on a function ends, and passes through sections of the function. -/
theorem exists_narrows (computes : p.Computes f) (isMinimum : Bool) (level limit : ℝ)
    (steps : Nat) (c : Section ℝ) (u : Option (MeasureUnit ℝ E)) (s : Session) :
    ∃ c' u' s' log, outcome ((p.sectionFrom isMinimum level steps limit c).run u) s =
        (.ok (c', u'), s') ∧
      p.Probes s log s' ∧ c.Narrows f isMinimum (log.map Prod.fst) c' ∧
      (steps ≠ 0 → c.isShort level limit = false → log ≠ []) := by
  induction steps generalizing c limit u s with
  | zero => exact ⟨c, u, s, [], rfl, .nil s, .nil c, fun none => absurd rfl none⟩
  | succ steps ih =>
    rw [sectionFrom_succ]
    cases short : c.isShort level limit with
    | true => exact ⟨c, u, s, [], rfl, .nil s, .nil c, fun _ => nofun⟩
    | false =>
      obtain ⟨q, s₁, probed, -, evaluated⟩ :=
        computes.exists_value (c.newPoint (c.goesLeft isMinimum)) u s
      obtain ⟨c', u', s', log, ended, probes, narrows, -⟩ := ih _ _ q.unit s₁
      exact ⟨c', u', s', (_, q) :: log, (MethodM.outcome_bind_ok evaluated).trans ended,
        .cons probed probes, .cons narrows, fun _ _ => nofun⟩

/-- A search between two points ends with the value at its answer. -/
theorem exists_extremeValue (computes : p.Computes f) (isMinimum : Bool) (ascending : start < stop)
    (u : Option (MeasureUnit ℝ E)) (s : Session) :
    ∃ u' s' log q xs c, outcome ((p.extremeValue isMinimum start stop).run u) s =
        (.ok (f (c.answer start stop), u'), s') ∧
      p.Probes s (log ++ [(c.answer start stop, q)]) s' ∧
      log.map Prod.fst = (Section.first start stop f).lower ::
        (Section.first start stop f).upper :: xs ∧
      (Section.first start stop f).Narrows f isMinimum xs c ∧
      (p.firstLimit start stop < stop - start → xs ≠ []) := by
  obtain ⟨q, s₁, probed, -, evaluated⟩ :=
    computes.exists_value (Section.first start stop f).lower u s
  obtain ⟨q', s₂, probed', -, evaluated'⟩ :=
    computes.exists_value (Section.first start stop f).upper q.unit s₁
  obtain ⟨c, u', s₃, log, searched, probes, narrows, moved⟩ := exists_narrows computes isMinimum
    (0.1 * (stop - start)) (p.firstLimit start stop) maxSections (Section.first start stop f)
    q'.unit s₂
  obtain ⟨q'', s', probed'', -, evaluated''⟩ := computes.exists_value (c.answer start stop) u' s₃
  refine ⟨q''.unit, s', _ :: _ :: log, q'', log.map Prod.fst, c, ?_,
    .cons probed (.cons probed' (probes.append (.single probed''))), rfl, narrows, ?_⟩
  · rw [extremeValue_eq]
    refine (MethodM.outcome_bind_ok evaluated).trans ?_
    refine (MethodM.outcome_bind_ok evaluated').trans ?_
    exact (MethodM.outcome_bind_ok searched).trans evaluated''
  · intro long
    -- the first section is too long to end the search, even if its inner values are equal
    have long_level : ¬ stop - start < 0.1 * (stop - start) := by
      have positive := sub_pos.2 ascending
      norm_num
      linarith
    have begins : (Section.first start stop f).isShort (0.1 * (stop - start))
        (p.firstLimit start stop) = false := by
      show (!decide (p.firstLimit start stop < stop - start) ||
        (_ && decide (stop - start < 0.1 * (stop - start)))) = false
      simp [long, long_level]
    simpa using moved (by decide) begins

/-- A search between two points narrows the section between them, and ends with the last value that
it saw. This is the best of all values that it saw if and only if it is not worse than those at the
inner points of the section that is left. On a function that leads to one end, it is the value
there. -/
theorem extremeValue_extreme (computes : p.Computes f) (isMinimum : Bool)
    (ascending : start < stop) (u : Option (MeasureUnit ℝ E)) (s : Session) :
    ∃ y u' s' log x q xs c, outcome ((p.extremeValue isMinimum start stop).run u) s =
        (.ok (y, u'), s') ∧
      p.Probes s (log ++ [(x, q)]) s' ∧ q.re = y ∧ f x = y ∧
      log.map Prod.fst = (Section.first start stop f).lower ::
        (Section.first start stop f).upper :: xs ∧
      (Section.first start stop f).Narrows f isMinimum xs c ∧ x = c.answer start stop ∧
      ((∀ e ∈ log, NotBeyond isMinimum e.2.re y) ↔
        NotBeyond isMinimum (f c.lower) y ∧ NotBeyond isMinimum (f c.upper) y) ∧
      ∀ toLeft, LeadsTo f start stop isMinimum toLeft →
        (toLeft = false → p.firstLimit start stop < stop - start) →
        x = (if toLeft then start else stop) ∧ ∀ e ∈ log, NotBeyond isMinimum e.2.re y := by
  obtain ⟨u', s', log, q, xs, c, ended, probes, points, narrows, moved⟩ :=
    exists_extremeValue computes isMinimum ascending u s
  have values := probes.re_eq computes
  rw [List.forall_mem_append, List.forall_mem_singleton] at values
  have seen (y : ℝ) : (∀ e ∈ log, NotBeyond isMinimum e.2.re y) ↔
      ∀ x ∈ log.map Prod.fst, NotBeyond isMinimum (f x) y := by
    rw [List.forall_mem_map]
    exact forall₂_congr fun e within => by rw [values.1 e within]
  rw [points] at seen
  refine ⟨_, u', s', log, _, q, xs, c, ended, probes, values.2, rfl, points, narrows, rfl,
    (seen _).trans (narrows.forall_notBeyond_iff ⟨rfl, rfl⟩ _), fun toLeft leads long => ?_⟩
  have first := Section.within_first f ascending toLeft
  obtain ⟨inside, ends⟩ := narrows.towards leads ⟨rfl, rfl⟩ first
  have answer : c.answer start stop = if toLeft then start else stop := by
    cases toLeft with
    | true => exact Section.answer_of_left ends
    | false => exact Section.answer_of_right (ends.2.2 (moved (long rfl))) ends.1
  have inside : ∀ x ∈ (Section.first start stop f).lower ::
      (Section.first start stop f).upper :: xs, x ∈ Icc start stop :=
    List.forall_mem_cons.2 ⟨first.lower_mem, List.forall_mem_cons.2 ⟨first.upper_mem, inside⟩⟩
  refine ⟨answer, (seen _).2 fun x within => ?_⟩
  rw [answer]
  exact leads.notBeyond (inside x within)

/-- The identity as an objective, with a precision that asks for everything. -/
def identity : Problem ℝ ℝ SessionM where
  objective x := return { num := .ofReal x, unit := none }
  isComplex := false
  unit := none
  precision := 0

/-- The greatest value of the identity between 0 and 1 is taken at 1. -/
theorem extremeValue_identity :
    identity.Computes id ∧ (0 : ℝ) < 1 ∧
    ∃ (u' : Option (MeasureUnit ℝ ℝ)) (s' : Session) (log : List (ℝ × Quantity ℝ ℝ))
      (q : Quantity ℝ ℝ),
      outcome ((identity.extremeValue false 0 1).run none) (.start {} ⟨1, 1⟩) = (.ok (1, u'), s') ∧
      identity.Probes (.start {} ⟨1, 1⟩) (log ++ [(1, q)]) s' ∧
      ∀ e ∈ log, NotBeyond false e.2.re 1 := by
  have computes : identity.Computes id := fun x s => ⟨_, s, rfl, rfl, decide_eq_true rfl⟩
  have long : identity.firstLimit 0 1 < 1 - 0 := by
    simp [firstLimit, identity]
  obtain ⟨y, u', s', log, x, q, xs, c, ended, probes, -, value, -, -, -, -, towards⟩ :=
    extremeValue_extreme computes false (zero_lt_one : (0 : ℝ) < 1) none (.start {} ⟨1, 1⟩)
  obtain ⟨rfl, best⟩ := towards false (strictMono_id.strictMonoOn _) fun _ => long
  cases value
  exact ⟨computes, zero_lt_one, u', s', log, q, ended, probes, best⟩

end Problem

end

end UnitCalc
