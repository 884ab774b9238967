/-
# Accepted expressions

An expression that the check accepts is well applied and gets a complete program exactly when
it is separated: then nothing cancels out in the count of separators. The check demands
neither, so it accepts lists such as `atan2(1) + sin(1; 2)` and `*2`, whose programs take
values from an empty stack.

## Main results

* `Token.exists_layout_of_check`: the layout of an accepted expression.
* `Token.wellApplied_iff_separated`: when accepted expressions are as they should be.
-/

import UnitCalc.Proofs.Postfix.Complete
import UnitCalc.Proofs.Token.Restated

namespace UnitCalc

namespace Legality

open Token

variable {header : Option String} {previous : Option Token} {t : Token} {s s' final : State}
  {tokens ts checked : List Token}

/-- What holds at the end of an accepted expression. -/
theorem finish_ok (finished : finish tokens s = .ok (checked, false)) :
    tokens.getLast?.any isDangling = false ∧ s.depth = 0 ∧ s.separators = 0 ∧
      s.isDefinition = false ∧ checked = s.checked.toList := by
  unfold finish at finished
  split at finished
  · cases finished
  · next complete =>
    split at finished
    · cases finished
    · repeat' split at finished
      all_goals simp at finished
      obtain ⟨rfl, expression⟩ := finished
      refine ⟨by simpa using complete, by omega, by omega, expression, rfl⟩

end Legality

namespace Token

open Legality Postfix

variable {tokens checked ts : List Token}

theorem callsOpen_uncounted : CallsOpen (uncounted ts) ↔ CallsOpen ts := by
  induction ts with
  | nil => rfl
  | cons t ts ih =>
    have call : (setCount 0 t).isCall = t.isCall := by cases t <;> rfl
    have bracket : (uncounted ts).head? = some .openBracket ↔ ts.head? = some .openBracket := by
      cases ts with
      | nil => rfl
      | cons u ts => cases u <;> simp [uncounted, setCount]
    exact and_congr (imp_congr (by rw [call]) bracket) ih

theorem separatorsAt_uncounted (depth : Nat) :
    separatorsAt depth (uncounted ts) = separatorsAt depth ts := by
  induction ts generalizing depth with
  | nil => rfl
  | cons t ts ih =>
    cases t with
    | separator => exact congrArg ((if depth = 0 then 1 else 0) + ·) (ih depth)
    | _ => exact ih _

/-- The kind of list that a visible token begins. -/
theorem exists_begins {t : Token} (visible : t.kind ≠ .start) :
    ∃ next : Expected, next.begins t.classAfter = true := by
  cases t <;> first
    | exact ⟨.operand, rfl⟩
    | exact ⟨.continuation, rfl⟩
    | exact absurd rfl visible

/-- The last token of a balanced list ends an operand, unless it dangles or is a separator. -/
theorem follows_last (visible : ∀ t ∈ ts, t.kind ≠ .start)
    (complete : ts.getLast?.any isDangling = false) (balanced : depthAfter 0 ts = some 0)
    (outside : separatorsAt 0 ts = 0) :
    ∀ t ∈ ts.getLast?, Expected.continuation.follows (some t) = true := by
  intro t last
  obtain ⟨before, rfl⟩ := List.getLast?_eq_some_iff.1 last
  have shown := visible t (by simp)
  have whole : t.isDangling = false := by simpa using complete
  cases t with
  | blank => exact absurd rfl shown
  | separator =>
    -- a separator at the end of a balanced list stands in no bracket
    obtain ⟨d, reached, closed⟩ := Option.bind_eq_some_iff.1 (depthAfter_append 0 before _ ▸ balanced)
    obtain rfl : d = 0 := Option.some.inj closed
    rw [separatorsAt_append reached] at outside
    simp [separatorsAt] at outside
  | _ => first | rfl | exact absurd whole (by simp [isDangling])

/-- An accepted expression has a layout in which no separator is in excess, when its calls have
brackets and no separator stands outside of them. -/
theorem exists_layout_of_check (accepted : check tokens = .ok (checked, false))
    (visible : ∀ t ∈ tokens, t.kind ≠ .start) (opens : CallsOpen checked)
    (outside : separatorsAt 0 checked = 0) : ∃ next, Layout next 0 0 tokens checked := by
  obtain ⟨final, ran, finished⟩ := check_ok accepted
  obtain ⟨complete, closed, counted, expression, rfl⟩ := finish_ok finished
  obtain ⟨chained, depth⟩ := chained_of_run ran
  have same : uncounted final.checked.toList = uncounted tokens := by
    simpa using run_uncounted ran
  rw [← callsOpen_uncounted, same, callsOpen_uncounted] at opens
  rw [← separatorsAt_uncounted, same, separatorsAt_uncounted] at outside
  have balanced : depthAfter 0 tokens = some 0 := by rw [depth, closed]
  -- The check does not look at the first token, so the list may begin with an operator.
  obtain ⟨next, regular⟩ : ∃ next, Regular next tokens := by
    cases tokens with
    | nil => exact ⟨.continuation, by simp, by simp, by simp, trivial, trivial, by simp, rfl⟩
    | cons t rest =>
      obtain ⟨next, begins⟩ := exists_begins (visible t List.mem_cons_self)
      exact ⟨next, by simp, by simpa using begins,
        follows_last visible complete balanced outside, chained, opens, visible, balanced⟩
  obtain ⟨n, e, us, layout⟩ := exists_layout next tokens regular
  have whole : run (headerName? tokens) none (tokens ++ []) {} = .ok final := by
    rwa [List.append_nil]
  obtain ⟨_, s', passes, ended⟩ := layout.passes (by simp) whole expression
  obtain rfl : s' = final := Except.ok.inj ended
  have stored : us = s'.checked.toList := by simpa using passes.checked.symm
  -- All separators are needed or in excess, and the counter of the check ends with zero.
  have separators : (n : Int) + e = 0 := by
    have total := passes.separators
    rw [counted] at total
    simpa using total.symm
  have none : n = 0 := by
    have found := layout.separatorsAt_eq 0
    rw [outside] at found
    exact found.symm
  have excess : e = 0 := by omega
  subst none excess stored
  exact ⟨next, layout⟩

/-- An accepted expression that is separated is applied to operands. -/
theorem Separated.applied (separated : Separated checked)
    (accepted : check tokens = .ok (checked, false)) (visible : ∀ t ∈ tokens, t.kind ≠ .start) :
    Applied .operand 0 checked := by
  obtain ⟨next, layout⟩ :=
    exists_layout_of_check accepted visible separated.opens separated.outside
  have applied := (layout.applied separated.noSurplus separated.noHidden).2 rfl
  have begins := separated.begins
  cases next with
  | continuation => cases applied <;> simp [mayFollow, Class.mayFollow, classAfter, classBefore,
      kind] at begins
  | operand => exact applied

/-- An accepted expression is well applied and has a complete program if and only if it is
separated. -/
theorem wellApplied_iff_separated (accepted : check tokens = .ok (checked, false))
    (visible : ∀ t ∈ tokens, t.kind ≠ .start) (isAssigned : CellId → Bool)
    (find : Option (String → Option ValueUnit)) (place : Nat) :
    (WellApplied checked ∧ ∃ program,
      ofTokens (Token.bind isAssigned find place checked) = .ok program ∧ IsComplete program) ↔
        Separated checked := by
  have alike := bind_alike isAssigned find place checked
  constructor
  · rintro ⟨wellApplied, program, ordered, complete⟩
    have outside : separatorsAt 0 checked = 0 := by
      rw [← separatorsAt_alike alike]
      exact separatorsAt_of_ofTokensFrom ordered
    obtain ⟨next, layout⟩ := exists_layout_of_check accepted visible wellApplied.opens outside
    obtain ⟨-, applied⟩ := wellApplied.applied layout
    -- A list that begins with an operator lacks its first operand.
    cases next with
    | continuation => exact absurd complete ((applied.alike alike).not_isComplete ordered)
    | operand =>
      have closes : Closes (some .openBracket) checked := layout.counted.closes rfl
      refine ⟨?_, wellApplied.opens, outside,
        fun b within _ => Nat.le_of_eq (wellApplied.arguments b within),
        fun b within _ inner nested _ => Nat.le_of_eq (wellApplied.arguments inner
          (layout.brackets_inside b within inner nested)).symm⟩
      cases checked with
      | nil => cases applied
      | cons t rest => exact closes.1.1
  · intro separated
    have applied := separated.applied accepted visible
    exact ⟨applied.wellApplied, (applied.alike alike).isComplete⟩

/-- The tokens of `atan2(1)+sin(1;2)`: the sine has the argument that the other call lacks. -/
def cancelling : List Token :=
  [.binaryFunction "atan2", .openBracket, .constant none "1", .closeBracket, .ofSymbol '+',
    .function "sin", .openBracket, .constant none "1", .separator, .constant none "2",
    .closeBracket]

/-- A surplus and a lack of arguments cancel out in the check. -/
theorem accepted_cancelling :
    check cancelling = .ok (cancelling, false) ∧ ¬ (WellApplied cancelling ∧ ∃ program,
      ofTokens (Token.bind (fun _ => false) none 0 cancelling) = .ok program ∧
        IsComplete program) := by
  have accepted : check cancelling = .ok (cancelling, false) := rfl
  have visible : ∀ t ∈ cancelling, t.kind ≠ .start := by simp [cancelling, kind, ofSymbol]
  refine ⟨accepted, fun applied => ?_⟩
  have separated := (wellApplied_iff_separated accepted visible _ _ _).1 applied
  have sine : Bracket.mk (some (.function "sin"))
      [.constant none "1", .separator, .constant none "2"] ∈ brackets none cancelling :=
    .tail _ (.head _)
  have tooMany := separated.noSurplus _ sine rfl
  exact absurd tooMany (by decide)

end Token

end UnitCalc
