/-
# Calls that are read

A name is read as that of a function only in front of a bracket, and the bracket is read next. So
in the tokens of a statement every call has its bracket.

## Main definitions

* `Scan.Settled`, `Scan.Waits`: every call that was read has its bracket, maybe but the last one.

## Main results

* `Scan.run_settled`: calls that are read have their brackets.
-/

import UnitCalc.Proofs.Statement.Alike
import UnitCalc.Proofs.Token.Layout

namespace UnitCalc

open SessionM

namespace Token

variable {t : Token} {ts us : List Token}

theorem CallsOpen.append (first : CallsOpen ts) (second : CallsOpen us) : CallsOpen (ts ++ us) := by
  induction ts with
  | nil => exact second
  | cons t ts ih =>
    refine ⟨fun call => ?_, ih first.2⟩
    obtain ⟨rest, rfl⟩ := List.head?_eq_some_iff.1 (first.1 call)
    rfl

theorem callsOpen_singleton (plain : t.isCall = false) : CallsOpen [t] :=
  ⟨fun call => absurd call (by simp [plain]), trivial⟩

/-- In front of a token other than a bracket no call ends a list. -/
theorem CallsOpen.of_append (opens : CallsOpen (ts ++ t :: us)) (other : t ≠ .openBracket) :
    CallsOpen ts := by
  induction ts with
  | nil => trivial
  | cons u ts ih =>
    refine ⟨fun call => ?_, ih opens.2⟩
    have bracket := opens.1 call
    cases ts with
    | nil => exact absurd (Option.some.inj bracket) other
    | cons v ts => exact bracket

end Token

namespace Scan

variable {t : Token} {a a' : Scan} {s s₁ : Session} {allowed : Bool} {c : Char}
  {rest after : List Char}

/-- Every call that was read has its bracket. -/
def Settled (a : Scan) : Prop :=
  Token.CallsOpen a.tokens

/-- Every call that was read has its bracket, when one comes next. -/
def Waits (a : Scan) : Prop :=
  Token.CallsOpen (a.tokens ++ [.openBracket])

theorem Waits.openBracket (waits : a.Waits) : a.openBracket.Settled := by
  unfold Settled Scan.openBracket
  rw [tokens_push]
  exact waits

namespace Settled

variable (settled : a.Settled)

include settled

theorem waits : a.Waits :=
  Token.CallsOpen.append settled (Token.callsOpen_singleton rfl)

/-- The name of a function waits for its bracket. -/
theorem push_waits (t : Token) : (a.push t).Waits := by
  unfold Waits
  rw [tokens_push, List.append_assoc]
  exact Token.CallsOpen.append settled ⟨fun _ => rfl, Token.callsOpen_singleton rfl⟩

theorem push (plain : t.isCall = false) : (a.push t).Settled := by
  unfold Settled
  rw [tokens_push]
  exact Token.CallsOpen.append settled (Token.callsOpen_singleton plain)

theorem closeDivisor : a.closeDivisor.Settled := by
  unfold Scan.closeDivisor
  split
  · exact settled.push (t := .closeBracket) rfl
  · exact settled

theorem operator {symbol : Char} (made : a.operator allowed symbol = .ok a') : a'.Settled := by
  unfold Scan.operator assign at made
  split at made
  · cases made
    exact settled.push rfl
  · have closed : (if symbol == '^' then a else a.closeDivisor).Settled := by
      split
      · exact settled
      · exact settled.closeDivisor
    generalize (if symbol == '^' then a else a.closeDivisor) = open_ at closed made
    simp only at made
    repeat' split at made
    all_goals first
      | cases made; exact closed.push rfl
      | cases made

theorem factorial (made : a.factorial = .ok a') : a'.Settled := by
  unfold Scan.factorial at made
  split at made
  case h_4 => cases made
  all_goals
    cases made
    exact settled.push rfl

theorem endOperand (plain : t.isCall = false) : (a.endOperand t).Settled :=
  settled.closeDivisor.push plain

theorem number {complex : Bool} {tail : Shorter (rest.length + 1)}
    (made : a.number complex c rest = .ok (a', tail)) : a'.Settled := by
  unfold Scan.number at made
  simp only at made
  cases read : readNumber (c :: rest.takeWhile isNumberChar) with
  | error e =>
    rw [read] at made
    cases made
  | ok x =>
    rw [read] at made
    change (if _ then _ else _) = _ at made
    split at made <;> cases made <;> exact settled.push rfl

/-- The bracket of a divisor stands before a number, which no call is in front of. -/
theorem unitSuffix {u : Token} (takes : a.takesUnit = true) (plain : u.isCall = false) :
    (a.unitSuffix u).Settled := by
  have joined {a : Scan} (settled : a.Settled) :
      ((a.push (.operator '*' unitSuffixOrder)).push u).Settled := (settled.push rfl).push plain
  unfold Scan.unitSuffix
  split
  · next number before _ same =>
    obtain ⟨bracket, call⟩ : number ≠ .openBracket ∧ number.isCall = false := by
      simp only [takesUnit, last?, same, List.head?_cons] at takes
      split at takes
      · next last => cases last; simp [Token.isCall]
      · next last => cases last; simp [Token.isCall]
      · cases takes
    have opens : Token.CallsOpen (before.reverse ++ [number]) := by
      rw [← List.reverse_cons, ← same]
      exact settled
    have front : Token.CallsOpen before.reverse := opens.of_append bracket
    refine joined ?_
    show Token.CallsOpen (number :: .openBracket :: before).reverse
    rw [List.reverse_cons, List.reverse_cons, List.append_assoc]
    exact front.append (Token.CallsOpen.append (Token.callsOpen_singleton rfl)
      (Token.callsOpen_singleton call))
  · exact joined settled

theorem function {name : String} (made : a.function s name = .ok a') : a'.Waits := by
  unfold Scan.function at made
  repeat' split at made
  all_goals first
    | cases made; exact settled.push_waits _
    | cases made

theorem signedUnit {name : String} (made : a.signedUnit s name after = .ok a') : a'.Settled := by
  unfold Scan.signedUnit unitToken at made
  split at made
  · cases made
    exact settled.push rfl
  · split at made <;> cases made
    exact settled.push rfl

theorem name {first : Char} {text : String}
    (made : outcome (a.name first text after) s = (.ok a', s₁)) :
    a'.Settled ∨ after.head? = some '(' ∧ a'.Waits := by
  unfold Scan.name at made
  split at made
  · cases made
  · next bracket =>
    rw [outcome_read] at made
    exact .inr ⟨bracket, settled.function (Prod.mk.inj made).1⟩
  · split at made
    · next takes =>
      obtain ⟨u, s₂, found, made⟩ := exists_of_bind_ok made
      cases made
      refine .inl (settled.unitSuffix takes ?_)
      rw [outcome_read] at found
      have found := (Prod.mk.inj found).1
      unfold unitToken at found
      split at found <;> cases found
      rfl
    · split at made
      · cases made
        exact .inl (settled.push rfl)
      · rw [outcome_read] at made
        exact .inl (settled.signedUnit (Prod.mk.inj made).1)

variable {limit : Nat} {create : Method → Shorter limit → SessionM Nat}
  {within : rest.length < limit} {tail : Shorter (rest.length + 1)}

theorem block (made : outcome (a.block limit create rest within) s = (.ok (a', tail), s₁)) :
    a'.Settled := by
  unfold Scan.block at made
  split at made
  · cases made
  · dsimp only at made
    split at made
    · cases made
    · split at made
      · cases made
      · obtain ⟨index, s₂, -, made⟩ := exists_of_bind_ok made
        cases made
        exact settled.push rfl

theorem input (made : outcome (a.input rest) s = (.ok (a', tail), s₁)) : a'.Settled := by
  unfold Scan.input at made
  split at made
  · split at made
    · cases made
    · obtain ⟨x, -, made⟩ := exists_of_ofExcept_ok made
      cases made
      exact settled.push rfl
  · rw [outcome_bind_ok (outcome_get s)] at made
    split at made
    · obtain ⟨_, s₂, -, made⟩ := exists_of_bind_ok made
      obtain ⟨x, -, made⟩ := exists_of_ofExcept_ok made
      cases made
      exact settled.push rfl
    · cases made
      exact settled.push rfl

/-- A lexeme other than a bracket. -/
theorem lexeme
    (made : outcome (a.lexeme limit create allowed c rest within) s = (.ok (a', tail), s₁)) :
    a'.Settled ∨ tail.1.head? = some '(' ∧ a'.Waits := by
  unfold Scan.lexeme at made
  split at made
  · cases made
    exact .inl settled
  cases class_ : CharClass.of c with
  | digit =>
    rw [class_] at made
    simp only [outcome_read] at made
    exact .inl (settled.number (Prod.mk.inj made).1)
  | letter =>
    rw [class_] at made
    simp only [word] at made
    split at made
    · cases made
    · obtain ⟨a₁, s₂, named, made⟩ := exists_of_bind_ok made
      cases made
      exact settled.name named
  | operator =>
    rw [class_] at made
    obtain ⟨a₁, applied, made⟩ := exists_of_ofExcept_ok made
    cases made
    exact .inl (settled.operator applied)
  | exclamation =>
    rw [class_] at made
    rw [outcome_ofExcept] at made
    rcases exclamation_ok (Prod.mk.inj made).1 with ⟨applied, -⟩ | ⟨applied, -⟩
    · exact .inl (settled.operator applied)
    · exact .inl (settled.factorial applied)
  | openBracket =>
    rw [class_] at made
    cases made
    exact .inl settled.waits.openBracket
  | closeBracket | separator =>
    rw [class_] at made
    cases made
    exact .inl (settled.endOperand rfl)
  | block =>
    rw [class_] at made
    exact .inl (settled.block made)
  | input =>
    rw [class_] at made
    exact .inl (settled.input made)
  | stop | unknown =>
    rw [class_] at made
    cases made

end Settled

variable {limit : Nat} {create : Method → Shorter limit → SessionM Nat}

/-- In what was read, every call has its bracket. -/
theorem run_settled {cs : List Char} {within : cs.length ≤ limit}
    (settled : a.Settled ∨ cs.head? = some '(' ∧ a.Waits)
    (ran : outcome (run limit create allowed cs within a) s = (.ok a', s₁)) : a'.Settled := by
  -- Strong induction: a lexeme may take more than one character.
  induction n : cs.length using Nat.strongRecOn generalizing cs a s with
  | ind n ih =>
    cases cs with
    | nil =>
      rw [run] at ran
      cases ran
      rcases settled with settled | ⟨bracket, -⟩
      · exact settled.closeDivisor
      · cases bracket
    | cons c rest =>
      rw [run] at ran
      split at ran
      · next stops =>
        cases ran
        rcases settled with settled | ⟨bracket, -⟩
        · exact settled.closeDivisor
        · cases bracket
          cases stops
      · obtain ⟨⟨a₁, tail⟩, s₂, made, ran⟩ := exists_of_bind_ok ran
        refine ih tail.1.length (n ▸ tail.2) ?_ ran rfl
        rcases settled with settled | ⟨bracket, waits⟩
        · exact settled.lexeme made
        · cases bracket
          cases made
          exact .inl waits.openBracket

end Scan

end UnitCalc
