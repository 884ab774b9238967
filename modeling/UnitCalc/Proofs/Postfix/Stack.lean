/-
# The stack of waiting tokens

Ordering a list moves tokens between the output and a stack of what waits for its operands.
What a part of the list does depends on the stack alone, and the parts follow each other.

## Main definitions

* `Postfix.Reads` is the effect of a part of a list.
-/

import UnitCalc.Postfix.Basic
import UnitCalc.Proofs.Token.Layout

namespace UnitCalc.Postfix

theorem exists_of_map_ok {program : List Token} {f : List Token → List Token}
    {result : Except CalcError (List Token)} (ordered : result.map f = .ok program) :
    ∃ program', result = .ok program' ∧ f program' = program := by
  cases result with
  | error e => simp [Except.map] at ordered
  | ok program' => exact ⟨program', rfl, Except.ok.inj ordered⟩

/-- Reading `ts` above a stack puts out `out` and leaves another stack. -/
def Reads (stack ts out stack' : List Token) : Prop :=
  ∀ rest, ofTokensFrom stack (ts ++ rest) = (ofTokensFrom stack' rest).map (out ++ ·)

variable {stack stack' stack'' pending ts us out out' : List Token} {t : Token}

theorem Reads.nil (stack : List Token) : Reads stack [] [] stack := by
  intro rest
  cases read : ofTokensFrom stack rest <;> simp [read, Except.map]

theorem Reads.trans (first : Reads stack ts out stack') (second : Reads stack' us out' stack'') :
    Reads stack (ts ++ us) (out ++ out') stack'' := by
  intro rest
  rw [List.append_assoc, first, second]
  cases ofTokensFrom stack'' rest <;> simp [Except.map]

theorem Reads.cons (first : Reads stack [t] out stack') (second : Reads stack' us out' stack'') :
    Reads stack (t :: us) (out ++ out') stack'' :=
  first.trans second

/-- The program of a whole list. -/
theorem Reads.ofTokens (reads : Reads [] ts out stack)
    (closed : ∀ t ∈ stack, isNotOpen t = true) : ofTokens ts = .ok (out ++ stack) := by
  have drained : drain stack = .ok stack := if_pos (List.all_eq_true.2 closed)
  have read := reads []
  rwa [List.append_nil, ofTokensFrom, drained] at read

theorem reads_operand (value : t.kind = .value) : Reads stack [t] [t] stack := by
  cases t <;> first | exact fun _ => rfl | cases value

/-- Functions, signs and opening brackets wait at once. -/
theorem reads_waiting (waits : t.isCall = true ∨ t = .openBracket ∨ ∃ order, t = .negation order) :
    Reads stack [t] [] (t :: stack) := by
  have pushed (rest : List Token) :
      ofTokensFrom stack (t :: rest) = ofTokensFrom (t :: stack) rest := by
    rcases waits with call | rfl | ⟨order, rfl⟩
    · cases t <;> first | rfl | cases call
    · rfl
    · rfl
  intro rest
  rw [List.singleton_append, pushed]
  exact Reads.nil (t :: stack) rest

/-- What is on top of a stack up to a token that stays. -/
theorem span_append {p : Token → Bool} (all : ∀ t ∈ pending, p t = true)
    (stays : ∀ t ∈ stack.head?, p t = false) :
    (pending ++ stack).takeWhile p = pending ∧ (pending ++ stack).dropWhile p = stack := by
  rw [List.takeWhile_append_of_pos all, List.dropWhile_append_of_pos all]
  cases stack with
  | nil => simp
  | cons t stack => simp [stays t rfl]

theorem reads_operator {symbol : Char} {order : Int}
    (yields : ∀ t ∈ pending, yieldsTo symbol order t = true)
    (stays : ∀ t ∈ stack.head?, yieldsTo symbol order t = false) :
    Reads (pending ++ stack) [.operator symbol order] pending
      (.operator symbol (waitingOrder symbol order) :: stack) := by
  obtain ⟨taken, dropped⟩ := span_append yields stays
  intro rest
  rw [List.singleton_append, ofTokensFrom, taken, dropped]

theorem reads_factorial (yields : ∀ t ∈ pending, yieldsToFactorial t = true)
    (stays : ∀ t ∈ stack.head?, yieldsToFactorial t = false) :
    Reads (pending ++ stack) [.factorial] (pending ++ [.factorial]) stack := by
  obtain ⟨taken, dropped⟩ := span_append yields stays
  intro rest
  rw [List.singleton_append, ofTokensFrom, taken, dropped]
  simp

private theorem span_bracket (inside : ∀ t ∈ pending, isNotOpen t = true) :
    (pending ++ .openBracket :: stack).takeWhile isNotOpen = pending ∧
      (pending ++ .openBracket :: stack).dropWhile isNotOpen = .openBracket :: stack :=
  span_append inside (by simp [isNotOpen])

theorem reads_closeBracket (inside : ∀ t ∈ pending, isNotOpen t = true) :
    Reads (pending ++ .openBracket :: stack) [.closeBracket] pending stack := by
  obtain ⟨taken, dropped⟩ := span_bracket inside
  intro rest
  rw [List.singleton_append, ofTokensFrom, taken, dropped]

theorem reads_separator (inside : ∀ t ∈ pending, isNotOpen t = true) :
    Reads (pending ++ .openBracket :: stack) [.separator] pending (.openBracket :: stack) := by
  obtain ⟨taken, dropped⟩ := span_bracket inside
  intro rest
  rw [List.singleton_append, ofTokensFrom, taken, dropped]

end UnitCalc.Postfix
