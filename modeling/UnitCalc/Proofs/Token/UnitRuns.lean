/-
# Runs of units

A run of units is a list of units that are joined by products and quotients, each of which may be
raised to a constant. When operators are ordered, those between two units of a run get the order
that binds tightly. An exponent with a sign ends the run, though: the sign is no operator that a
run may contain, so the operator behind the exponent keeps its own order, and the next unit begins
a run of its own. The stretches of a run are what is left between such exponents.

## Main definitions

* `UnitRun`: a run of units, and its `tokens` as they are read.
* `UnitRun.bracketed`: the tokens with brackets around every stretch.
* `Token.EndsRun`: tokens behind which no run goes on.

## Main results

* `UnitRun.tighten_tokens`, `UnitRun.tighten_bracketed`: the orders of a run, without and with its
  brackets.
-/

import UnitCalc.Proofs.Token.Placeless

namespace UnitCalc

open Token

/-- What a unit of a run is raised to: nothing, a constant, or a constant with a sign. -/
inductive UnitExponent where
  | one
  | constant (value : Option Value) (text : String)
  | negated (value : Option Value) (text : String)

namespace UnitExponent

/-- The exponent as it is read. -/
def tokens : UnitExponent → List Token
  | one => []
  | constant value text => [ofSymbol '^', .constant value text]
  | negated value text => [ofSymbol '^', .negation unordered, .constant value text]

/-- The exponent has a sign. -/
def isNegated : UnitExponent → Bool
  | negated _ _ => true
  | _ => false

end UnitExponent

/-- A unit of a run, by the token it is read as, with its exponent. -/
structure UnitPower where
  unit : Token
  exponent : UnitExponent := .one

/-- How a unit is joined to the part of the run before it. -/
inductive UnitJoin where
  | product
  | quotient
deriving DecidableEq

/-- The symbol that joins two units. -/
def UnitJoin.symbol : UnitJoin → Char
  | product => '*'
  | quotient => '/'

/-- A run of units. -/
structure UnitRun where
  first : UnitPower
  rest : List (UnitJoin × UnitPower) := []

namespace UnitPower

/-- A power as it is read. -/
def tokens (p : UnitPower) : List Token :=
  p.unit :: p.exponent.tokens

/-- A power whose token was made a unit, with ordered operators. -/
def bound (resolve : Token → Token) (p : UnitPower) : List Token :=
  resolve p.unit :: p.exponent.tokens.map ordered

/-- The operator behind a power, which binds tightly unless a sign has ended the run. -/
def joint (p : UnitPower) (join : UnitJoin) : Token :=
  .operator join.symbol (if p.exponent.isNegated then Operator.multiply.order else unitTermOrder)

end UnitPower

namespace UnitRun

/-- Writes a run, each power by `power` and what joins it to the next one by `operator`. An exponent
with a sign ends a stretch of the run: if there are `brackets`, they separate two stretches. -/
def write (brackets : Bool) (power : UnitPower → List Token)
    (operator : UnitPower → UnitJoin → Token) :
    UnitPower → List (UnitJoin × UnitPower) → List Token
  | p, [] => power p
  | p, (join, q) :: rest =>
    let joined := if brackets && p.exponent.isNegated then
      [.closeBracket, operator p join, .openBracket] else [operator p join]
    power p ++ joined ++ write brackets power operator q rest

/-- The powers of a run. -/
def powers (r : UnitRun) : List UnitPower :=
  r.first :: r.rest.map Prod.snd

/-- The tokens of a run as they are read. -/
def tokens (r : UnitRun) : List Token :=
  write false UnitPower.tokens (fun _ join => ofSymbol join.symbol) r.first r.rest

/-- The tokens of a run with brackets around every stretch. -/
def bracketed (r : UnitRun) : List Token :=
  .openBracket ::
    (write true UnitPower.tokens (fun _ join => ofSymbol join.symbol) r.first r.rest ++
      [.closeBracket])

/-- No exponent but the last one has a sign, so the run is a single stretch. -/
def IsUnbroken (r : UnitRun) : Prop :=
  ∀ p ∈ r.powers.dropLast, p.exponent.isNegated = false

variable {power : UnitPower → List Token} {operator : UnitPower → UnitJoin → Token}

theorem write_unbroken (p : UnitPower) (rest : List (UnitJoin × UnitPower))
    (unbroken : ∀ q ∈ (p :: rest.map Prod.snd).dropLast, q.exponent.isNegated = false) :
    write true power operator p rest = write false power operator p rest := by
  induction rest generalizing p with
  | nil => rfl
  | cons joined rest ih =>
    rw [List.map_cons, List.dropLast_cons_cons, List.forall_mem_cons] at unbroken
    rw [write, write, ih joined.2 unbroken.2, unbroken.1]
    rfl

/-- An unbroken run is written between one pair of brackets. -/
theorem bracketed_of_isUnbroken {r : UnitRun} (unbroken : r.IsUnbroken) :
    r.bracketed = .openBracket :: (r.tokens ++ [.closeBracket]) := by
  rw [bracketed, write_unbroken r.first r.rest unbroken, tokens]

theorem map_write (f : Token → Token) (brackets : Bool) (p : UnitPower)
    (rest : List (UnitJoin × UnitPower)) (open_eq : f .openBracket = .openBracket)
    (close_eq : f .closeBracket = .closeBracket) :
    (write brackets power operator p rest).map f =
      write brackets (fun p => (power p).map f) (fun p join => f (operator p join)) p rest := by
  induction rest generalizing p with
  | nil => rfl
  | cons joined rest ih =>
    rw [write, write, List.map_append, List.map_append, ih]
    congr 2
    split <;> simp [open_eq, close_eq]

/-- What is written begins with its first power. -/
theorem exists_write_eq (brackets : Bool) (power : UnitPower → List Token)
    (operator : UnitPower → UnitJoin → Token) (p : UnitPower)
    (rest : List (UnitJoin × UnitPower)) :
    ∃ us, write brackets power operator p rest = power p ++ us := by
  cases rest with
  | nil => exact ⟨[], by rw [write, List.append_nil]⟩
  | cons joined rest => exact ⟨_, by rw [write, List.append_assoc]⟩

end UnitRun

/-! ## Ordering a run -/

namespace Token

/-- A token behind which no run of units goes on, and which no operator inside of a run waits
for. -/
def EndsRun : Token → Prop
  | closeBracket | separator => True
  | operator symbol order =>
    Operator.multiply.order ≤ order ∧ symbol ≠ '*' ∧ symbol ≠ '/' ∧ symbol ≠ '^'
  | _ => False

variable {t u : Token} {ts : List Token}

theorem EndsRun.isUnit_eq (ends : t.EndsRun) : t.isUnit = false := by
  cases t <;> first | rfl | exact ends.elim

theorem EndsRun.keepsRun_eq (ends : t.EndsRun) (previous : Token) :
    keepsRun previous t = false := by
  cases t with
  | closeBracket | separator => rfl
  | operator => simp [keepsRun, joinsUnits, isOperator, isConstant, ends.2]
  | _ => exact ends.elim

/-- A token other than a unit begins no run. -/
theorem tighten_cons (plain : t.isUnit = false) (ts : List Token) :
    tighten (t :: ts) = t :: tighten ts := by
  rw [tighten, plain, tightenFrom_false]

/-- Behind a token that is not tightened, whatever ends a run begins no run. -/
theorem tightenFrom_ending {previous : Token} (inRun : Bool)
    (ends : ∀ t ∈ ts.head?, t.EndsRun) :
    tightenFrom previous inRun ts = previous :: tighten ts := by
  cases ts with
  | nil => rfl
  | cons t ts =>
    have ends := ends t rfl
    rw [tightenFrom, ends.isUnit_eq, ends.keepsRun_eq, Bool.and_false, tighten_cons ends.isUnit_eq,
      tightenFrom_false]
    rfl

/-- What precedes a token at which no run goes on does not depend on what follows. -/
theorem exists_tightenFrom_append (before : List Token) (plain : t.isUnit = false)
    (previous : Token) (inRun : Bool)
    (stops : ∀ p ∈ (previous :: before).getLast?, keepsRun p t = false) :
    ∃ before', ∀ ts,
      tightenFrom previous inRun (before ++ t :: ts) = before' ++ t :: tighten ts := by
  induction before generalizing previous inRun with
  | nil =>
    refine ⟨[previous], fun ts => ?_⟩
    rw [List.nil_append, tightenFrom, plain, stops previous rfl, Bool.and_false, tightenFrom_false]
    rfl
  | cons u before ih =>
    rw [List.getLast?_cons_cons] at stops
    by_cases unit : u.isUnit = true
    · obtain ⟨before', rest⟩ := ih u true stops
      refine ⟨(if inRun then previous.tightened else previous) :: before', fun ts => ?_⟩
      rw [List.cons_append, tightenFrom, if_pos unit, rest, List.cons_append]
    · obtain ⟨before', rest⟩ := ih u (inRun && keepsRun previous u) stops
      refine ⟨previous :: before', fun ts => ?_⟩
      rw [List.cons_append, tightenFrom, if_neg unit, rest, List.cons_append]

theorem exists_tighten_append (before : List Token) (plain : t.isUnit = false)
    (stops : ∀ p ∈ before.getLast?, keepsRun p t = false) :
    ∃ before', ∀ ts, tighten (before ++ t :: ts) = before' ++ t :: tighten ts := by
  cases before with
  | nil => exact ⟨[], fun ts => tighten_cons plain ts⟩
  | cons u before => exact exists_tightenFrom_append before plain u u.isUnit stops

end Token

theorem exists_of_isUnit {t : Token} (isUnit : t.isUnit = true) :
    ∃ value name, t = .unit value name := by
  cases t with
  | unit value name => exact ⟨value, name, rfl⟩
  | _ => cases isUnit

namespace UnitPower

variable {resolve : Token → Token} {p : UnitPower} {post : List Token}

/-- A power at the end of a run. -/
theorem tighten_bound (isUnit : (resolve p.unit).isUnit = true)
    (ends : ∀ t ∈ post.head?, t.EndsRun) :
    tighten (p.bound resolve ++ post) = p.bound resolve ++ tighten post := by
  obtain ⟨value, name, resolved⟩ := exists_of_isUnit isUnit
  obtain ⟨unit, exponent⟩ := p
  rw [bound, resolved]
  cases exponent with
  | one => exact tightenFrom_ending true ends
  | constant value text => exact congrArg (_ :: _ :: ·) (tightenFrom_ending true ends)
  | negated value text => exact congrArg (_ :: _ :: _ :: ·) (tightenFrom_ending false ends)

/-- A power inside of a run. -/
theorem tighten_bound_joint (join : UnitJoin) (isUnit : (resolve p.unit).isUnit = true)
    (next : ∀ u ∈ post.head?, u.isUnit = true) (continues : post ≠ []) :
    tighten (p.bound resolve ++ (ofSymbol join.symbol).ordered :: post) =
      p.bound resolve ++ p.joint join :: tighten post := by
  obtain ⟨value, name, resolved⟩ := exists_of_isUnit isUnit
  obtain ⟨u, us, rfl⟩ := List.exists_cons_of_ne_nil continues
  obtain ⟨value', name', rfl⟩ := exists_of_isUnit (next u rfl)
  obtain ⟨unit, exponent⟩ := p
  rw [bound, resolved]
  cases exponent <;> cases join <;> rfl

end UnitPower

namespace UnitRun

variable {isAssigned : CellId → Bool} {find : String → Option ValueUnit} {post : List Token}

/-- A token as it is bound when a name that was not assigned may become a unit. -/
def resolve (isAssigned : CellId → Bool) (find : String → Option ValueUnit) (t : Token) : Token :=
  t.ordered.resolved isAssigned find

/-- Of a power only the unit can be a name. -/
theorem map_resolve_tokens (p : UnitPower) :
    p.tokens.map (resolve isAssigned find) = p.bound (resolve isAssigned find) := by
  obtain ⟨unit, exponent⟩ := p
  cases exponent <;> rfl

theorem resolve_ofSymbol (join : UnitJoin) :
    resolve isAssigned find (ofSymbol join.symbol) = (ofSymbol join.symbol).ordered := by
  cases join <;> rfl

private theorem tighten_write (brackets : Bool) (p : UnitPower)
    (rest : List (UnitJoin × UnitPower))
    (isUnit : ∀ q ∈ p :: rest.map Prod.snd, (resolve isAssigned find q.unit).isUnit = true)
    (post : List Token) (ends : ∀ t ∈ post.head?, t.EndsRun) :
    tighten (write brackets (UnitPower.bound (resolve isAssigned find))
        (fun _ join => (ofSymbol join.symbol).ordered) p rest ++ post) =
      write brackets (UnitPower.bound (resolve isAssigned find)) UnitPower.joint p rest ++
        tighten post := by
  induction rest generalizing p with
  | nil => exact UnitPower.tighten_bound (isUnit p (by simp)) ends
  | cons joined rest ih =>
    obtain ⟨join, q⟩ := joined
    rw [List.map_cons, List.forall_mem_cons] at isUnit
    have last := ih q isUnit.2
    simp only [write, List.append_assoc]
    rw [← last]
    by_cases separated : (brackets && p.exponent.isNegated) = true
    · -- the bracket ends the stretch, and the operator behind it keeps its order
      have negated : p.exponent.isNegated = true := (Bool.and_eq_true_iff.1 separated).2
      have joint : p.joint join = (ofSymbol join.symbol).ordered := by
        rw [UnitPower.joint, negated]
        cases join <;> rfl
      have plain : (ofSymbol join.symbol).ordered.isUnit = false := by cases join <;> rfl
      rw [if_pos separated, if_pos separated, joint, List.cons_append, List.cons_append,
        UnitPower.tighten_bound isUnit.1 (by simp [EndsRun]), tighten_cons rfl, tighten_cons plain,
        List.cons_append, List.nil_append, tighten_cons rfl]
      rfl
    · rw [if_neg separated, if_neg separated, List.singleton_append, List.singleton_append]
      obtain ⟨us, written⟩ := exists_write_eq brackets (UnitPower.bound (resolve isAssigned find))
        (fun _ join => (ofSymbol join.symbol).ordered) q rest
      refine UnitPower.tighten_bound_joint join isUnit.1 ?_ ?_
      · rw [written]
        exact fun u first => Option.some.inj first ▸ isUnit.2 q (by simp)
      · rw [written]
        exact nofun

variable {r : UnitRun}
  (isUnit : ∀ p ∈ r.powers, (resolve isAssigned find p.unit).isUnit = true)

include isUnit

/-- The operators of a run bind tightly, but for those behind an exponent with a sign. -/
theorem tighten_tokens (ends : ∀ t ∈ post.head?, t.EndsRun) :
    tighten (r.tokens.map (resolve isAssigned find) ++ post) =
      write false (UnitPower.bound (resolve isAssigned find)) UnitPower.joint r.first r.rest ++
        tighten post := by
  rw [tokens, map_write _ _ _ _ rfl rfl]
  simp only [map_resolve_tokens, resolve_ofSymbol]
  exact tighten_write false r.first r.rest isUnit post ends

/-- Brackets around the stretches of a run change no order in it. -/
theorem tighten_bracketed :
    tighten (r.bracketed.map (resolve isAssigned find) ++ post) =
      .openBracket :: (write true (UnitPower.bound (resolve isAssigned find)) UnitPower.joint
        r.first r.rest ++ .closeBracket :: tighten post) := by
  have bound := tighten_write true r.first r.rest isUnit (.closeBracket :: post) (by simp [EndsRun])
  rw [tighten_cons rfl] at bound
  rw [← bound, ← tighten_cons rfl, bracketed, List.map_cons, List.map_append,
    map_write _ _ _ _ rfl rfl]
  simp only [map_resolve_tokens, resolve_ofSymbol, List.cons_append, List.append_assoc]
  rfl

end UnitRun

end UnitCalc
