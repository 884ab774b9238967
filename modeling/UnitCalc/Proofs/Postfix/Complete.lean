/-
# Complete programs

A program is complete when it never takes a value from an empty stack and ends with a single
one. While a well applied list is ordered, the values that its output leaves on the stack are
those of the operands read so far and those that the waiting operations have in reserve. So
its program is complete, exactly when the list begins with an operand.

## Main definitions

* `Postfix.heightFrom` follows the height of the stack through a program.
* `Postfix.IsComplete` programs leave one value.

## Main results

* `Applied.isComplete`: the program of a well applied list is complete.
* `Applied.begins_of_isComplete`: and only of one that begins with an operand.
-/

import Mathlib.Data.List.TakeWhile
import UnitCalc.Proofs.Postfix.Stack
import UnitCalc.Proofs.Token.Arguments

namespace UnitCalc

namespace Postfix

open Token

/-- The height of the stack behind a program, which takes no value from an empty stack. -/
def heightFrom (height : Nat) : List Token → Option Nat
  | [] => some height
  | t :: rest => if t.arity ≤ height then heightFrom (height - t.arity + 1) rest else none

/-- The program leaves a single value. -/
def IsComplete (program : List Token) : Prop :=
  heightFrom 0 program = some 1

/-- A token that waits for operands on the stack. -/
def IsWaiting (t : Token) : Prop :=
  isNotOpen t = true ∧ 0 < t.arity

/-- The values in reserve for the tokens that wait: each one lacks its last operand. -/
def reserve : List Token → Nat
  | [] => 0
  | t :: waiting => t.arity - 1 + reserve waiting

theorem reserve_append (first second : List Token) :
    reserve (first ++ second) = reserve first + reserve second := by
  induction first with
  | nil => simp [reserve]
  | cons t first ih =>
    rw [List.cons_append, reserve, reserve, ih]
    omega

theorem heightFrom_append (height : Nat) (first second : List Token) :
    heightFrom height (first ++ second) =
      (heightFrom height first).bind fun h => heightFrom h second := by
  induction first generalizing height with
  | nil => rfl
  | cons t first ih =>
    rw [List.cons_append, heightFrom, heightFrom]
    split
    · exact ih _
    · rfl

/-- What waits finds its operands, and leaves one value in place of them. -/
theorem heightFrom_waiting {pending : List Token} (waiting : ∀ t ∈ pending, IsWaiting t)
    (height : Nat) : heightFrom (height + 1 + reserve pending) pending = some (height + 1) := by
  induction pending with
  | nil => rfl
  | cons t pending ih =>
    have positive := (waiting t List.mem_cons_self).2
    have total : reserve (t :: pending) = t.arity - 1 + reserve pending := by simp [reserve]
    have left : height + 1 + reserve (t :: pending) - t.arity + 1 =
        height + 1 + reserve pending := by omega
    rw [heightFrom, if_pos (by omega), left]
    exact ih fun u within => waiting u (List.mem_cons_of_mem t within)

theorem heightFrom_popped {first second : List Token} (waiting : ∀ t ∈ first, IsWaiting t)
    (base : Nat) :
    heightFrom (base + 1 + reserve (first ++ second)) first =
      some (base + 1 + reserve second) := by
  have popped := heightFrom_waiting waiting (base + reserve second)
  have start : base + 1 + reserve (first ++ second) =
      base + reserve second + 1 + reserve first := by
    rw [reserve_append]
    omega
  rw [start, popped]
  congr 1
  omega

/-- More values below do no harm. -/
theorem heightFrom_succ {height final : Nat} {program : List Token}
    (reached : heightFrom height program = some final) :
    heightFrom (height + 1) program = some (final + 1) := by
  induction program generalizing height with
  | nil =>
    cases reached
    rfl
  | cons t program ih =>
    rw [heightFrom] at reached ⊢
    split at reached
    · next enough =>
      have left : height + 1 - t.arity + 1 = height - t.arity + 1 + 1 := by omega
      rw [if_pos (by omega), left]
      exact ih reached
    · cases reached

/-- A stack of waiting tokens splits at the first one that stays. -/
theorem exists_span (p : Token → Bool) (pending : List Token) {below : List Token}
    (stays : ∀ t ∈ below.head?, p t = false) :
    ∃ first second, pending = first ++ second ∧ (∀ t ∈ first, p t = true) ∧
      ∀ t ∈ (second ++ below).head?, p t = false := by
  refine ⟨pending.takeWhile p, pending.dropWhile p, List.takeWhile_append_dropWhile.symm,
    fun t within => List.mem_takeWhile_imp within, fun t first => ?_⟩
  cases rest : pending.dropWhile p with
  | nil =>
    rw [rest] at first
    exact stays t first
  | cons u second =>
    rw [rest] at first
    have head : u = t := by simpa using first
    have stop := List.head?_dropWhile_not p pending
    rw [rest] at stop
    simpa [head] using stop

/-- The open brackets on a stack. -/
def openBrackets (stack : List Token) : Nat :=
  stack.countP fun t => !isNotOpen t

theorem openBrackets_open (stack : List Token) :
    openBrackets (.openBracket :: stack) = openBrackets stack + 1 := by
  simp [openBrackets, isNotOpen]

theorem openBrackets_other {t : Token} (other : isNotOpen t = true) (stack : List Token) :
    openBrackets (t :: stack) = openBrackets stack := by
  simp [openBrackets, other]

theorem openBrackets_dropWhile {p : Token → Bool} (stays : p .openBracket = false)
    (stack : List Token) : openBrackets (stack.dropWhile p) = openBrackets stack := by
  induction stack with
  | nil => rfl
  | cons t stack ih =>
    rw [List.dropWhile_cons]
    split
    · next drops =>
      have other : isNotOpen t = true := by
        cases t <;> first | rfl | simp [stays] at drops
      rw [ih, openBrackets_other other]
    · rfl

/-- The innermost open bracket of a stack that has one. -/
theorem openBrackets_of_dropWhile {stack below : List Token} {t : Token}
    (rest : stack.dropWhile isNotOpen = t :: below) :
    t = .openBracket ∧ openBrackets stack = openBrackets below + 1 := by
  have stop := List.head?_dropWhile_not isNotOpen stack
  rw [rest] at stop
  have bracket : t = .openBracket := by
    cases t <;> first | rfl | simp [isNotOpen] at stop
  refine ⟨bracket, ?_⟩
  rw [← openBrackets_dropWhile (p := isNotOpen) rfl stack, rest, bracket, openBrackets_open]

/-- A list that gets a program has no separators outside of brackets. -/
theorem separatorsAt_of_ofTokensFrom {stack ts program : List Token}
    (ordered : ofTokensFrom stack ts = .ok program) :
    separatorsAt (openBrackets stack) ts = 0 := by
  -- The induction is on the list. The open brackets on the stack are those that surround its rest.
  induction ts generalizing stack program with
  | nil => rfl
  | cons t ts ih =>
    cases t with
    | blank => exact ih ordered
    | openBracket =>
      have read := ih ordered
      rwa [openBrackets_open] at read
    | negation | function | binaryFunction | multiFunction | conditional | call =>
      have read := ih ordered
      rwa [openBrackets_other rfl] at read
    | operator symbol order =>
      obtain ⟨program', ordered', -⟩ := exists_of_map_ok ordered
      have read := ih ordered'
      rwa [openBrackets_other rfl, openBrackets_dropWhile rfl] at read
    | factorial =>
      obtain ⟨program', ordered', -⟩ := exists_of_map_ok ordered
      have read := ih ordered'
      rwa [openBrackets_dropWhile rfl] at read
    | closeBracket =>
      rw [ofTokensFrom] at ordered
      split at ordered
      · cases ordered
      · next bracket below rest =>
        obtain ⟨rfl, opened⟩ := openBrackets_of_dropWhile rest
        obtain ⟨program', ordered', -⟩ := exists_of_map_ok ordered
        rw [separatorsAt, opened]
        exact ih ordered'
    | separator =>
      rw [ofTokensFrom] at ordered
      split at ordered
      · cases ordered
      · next bracket below rest =>
        obtain ⟨rfl, opened⟩ := openBrackets_of_dropWhile rest
        obtain ⟨program', ordered', -⟩ := exists_of_map_ok ordered
        have read := ih ordered'
        rw [openBrackets_open, ← opened] at read
        rw [separatorsAt, read, if_neg (by omega)]
    | _ =>
      obtain ⟨program', ordered', -⟩ := exists_of_map_ok ordered
      exact ih ordered'

end Postfix

namespace Token

open Postfix

/-- The values that what was read before has put on the stack. -/
def Expected.produced : Expected → Nat
  | .operand => 0
  | .continuation => 1

/-- What a part of a list does to the stack and to the height, when `base` values lie below
those in reserve. The brackets around it stand in `below`. -/
def Produces (next : Expected) (n : Nat) (ts pending below : List Token) : Prop :=
  ∀ base, ∃ out pending', (∀ t ∈ pending', IsWaiting t) ∧
    Reads (pending ++ below) ts out (pending' ++ below) ∧
    heightFrom (base + next.produced + reserve pending) out =
      some (base + n + 1 + reserve pending')

namespace Produces

variable {next next' : Expected} {n m : Nat} {ts us inside : List Token} {t : Token}
  {pending pending' below : List Token}

/-- A token that puts out a list in front of which the heights agree. -/
theorem cons {out : List Token} (first : Reads (pending ++ below) [t] out (pending' ++ below))
    (height : ∀ base, heightFrom (base + next.produced + reserve pending) out =
      some (base + next'.produced + reserve pending'))
    (rest : Produces next' n ts pending' below) : Produces next n (t :: ts) pending below := by
  intro base
  obtain ⟨out', pending'', waiting, reads, reached⟩ := rest base
  refine ⟨out ++ out', pending'', waiting, first.cons reads, ?_⟩
  rw [heightFrom_append, height, Option.bind_some, reached]

/-- Reading the inside of a bracket leaves one value for each argument. -/
theorem close (body : Produces .operand m inside [] (.openBracket :: below)) (base : Nat) :
    ∃ out, Reads below (.openBracket :: (inside ++ [.closeBracket])) out below ∧
      heightFrom base out = some (base + m + 1) := by
  obtain ⟨out, pending', waiting', reads, reached⟩ := body base
  have opened : Reads below [.openBracket] [] (.openBracket :: below) :=
    reads_waiting (.inr (.inl rfl))
  have closed : Reads (pending' ++ .openBracket :: below) [.closeBracket] pending' below :=
    reads_closeBracket fun t within => (waiting' t within).1
  refine ⟨out ++ pending', opened.cons (reads.trans closed), ?_⟩
  have start : heightFrom base out = some (base + m + 1 + reserve pending') := by
    simpa [Expected.produced, reserve] using reached
  rw [heightFrom_append, start, Option.bind_some, heightFrom_waiting waiting']

end Produces

namespace Applied

variable {next : Expected} {n : Nat} {ts : List Token} {pending below : List Token}

theorem isWaiting_of_call {t : Token} {m : Nat} (call : t.isCall = true) (takes : t.arity = m + 1) :
    IsWaiting t := by
  refine ⟨?_, by omega⟩
  cases t <;> first | rfl | cases call

/-- Every part of a well applied list produces its values. -/
theorem produces (applied : Applied next n ts) (waiting : ∀ t ∈ pending, IsWaiting t)
    (bottom : ∀ t ∈ below.head?, t = .openBracket) (inside : 0 < n → below ≠ []) :
    Produces next n ts pending below := by
  -- The induction follows the grammar. What waits on the stack is known above `below`: operators
  -- and calls that lack their last operand, and each of them has a value less than its arity.
  induction applied generalizing pending below with
  | done => exact fun base => ⟨[], pending, waiting, Reads.nil _, rfl⟩
  | @operand t n ts value _ ih =>
    have leaf : t.arity = 0 := by cases t <;> first | rfl | cases value
    refine (ih waiting bottom inside).cons (reads_operand value) fun base => ?_
    simp [heightFrom, leaf, Expected.produced]
    omega
  | @negation order n ts _ ih =>
    have waiting' : ∀ t ∈ .negation order :: pending, IsWaiting t :=
      List.forall_mem_cons.2 ⟨⟨rfl, Nat.one_pos⟩, waiting⟩
    have pushed : Reads (pending ++ below) [.negation order] [] (.negation order :: pending ++ below) :=
      reads_waiting (.inr (.inr ⟨order, rfl⟩))
    refine (ih waiting' bottom inside).cons pushed fun base => ?_
    simp [heightFrom, reserve, arity]
  | @bracket n inner ts _ _ ihBody ihRest =>
    have body : Produces .operand 0 inner [] (.openBracket :: (pending ++ below)) :=
      ihBody (by simp) (by simp) (by simp)
    intro base
    -- What is inside begins with an empty stack of its own, and leaves its values to the outside.
    obtain ⟨out, reads, reached⟩ := body.close (base + reserve pending)
    obtain ⟨out', pending', waiting', reads', reached'⟩ := ihRest waiting bottom inside base
    refine ⟨out ++ out', pending', waiting', by simpa using reads.trans reads', ?_⟩
    have height : base + reserve pending + 0 + 1 = base + 1 + reserve pending := by omega
    have start : base + Expected.operand.produced + reserve pending = base + reserve pending := rfl
    rw [heightFrom_append, start, reached, Option.bind_some, height]
    exact reached'
  | @call t n m inner ts call takes _ _ ihBody ihRest =>
    have waits := isWaiting_of_call call takes
    have body : Produces .operand m inner [] (.openBracket :: (t :: pending ++ below)) :=
      ihBody (by simp) (by simp) (by simp)
    have pushed : Reads (pending ++ below) [t] [] (t :: pending ++ below) :=
      reads_waiting (.inl call)
    intro base
    obtain ⟨out, reads, reached⟩ := body.close (base + reserve pending)
    obtain ⟨out', pending', waiting', reads', reached'⟩ :=
      ihRest (List.forall_mem_cons.2 ⟨waits, waiting⟩) bottom inside base
    refine ⟨out ++ out', pending', waiting', by simpa using pushed.cons (reads.trans reads'), ?_⟩
    have height : base + reserve pending + m + 1 = base + 1 + reserve (t :: pending) := by
      have total : reserve (t :: pending) = t.arity - 1 + reserve pending := by simp [reserve]
      omega
    have start : base + Expected.operand.produced + reserve pending = base + reserve pending := rfl
    rw [heightFrom_append, start, reached, Option.bind_some, height]
    exact reached'
  | @factorial n ts _ ih =>
    have stays : ∀ t ∈ below.head?, yieldsToFactorial t = false := by
      intro t first
      rw [bottom t first]
      rfl
    obtain ⟨first, second, rfl, yields, stays⟩ := exists_span yieldsToFactorial pending stays
    rw [List.forall_mem_append] at waiting
    have read := reads_factorial yields stays
    rw [← List.append_assoc] at read
    refine (ih waiting.2 bottom inside).cons read fun base => ?_
    rw [heightFrom_append, Expected.produced, heightFrom_popped waiting.1, Option.bind_some]
    simp [heightFrom, arity]
    omega
  | @operator symbol order n ts _ ih =>
    have stays : ∀ t ∈ below.head?, yieldsTo symbol order t = false := by
      intro t first
      rw [bottom t first]
      rfl
    obtain ⟨first, second, rfl, yields, stays⟩ :=
      exists_span (yieldsTo symbol order) pending stays
    rw [List.forall_mem_append] at waiting
    have read := reads_operator yields stays
    rw [← List.append_assoc, ← List.cons_append] at read
    have waiting' : ∀ t ∈ .operator symbol (waitingOrder symbol order) :: second, IsWaiting t :=
      List.forall_mem_cons.2 ⟨⟨rfl, Nat.two_pos⟩, waiting.2⟩
    refine (ih waiting' bottom inside).cons read fun base => ?_
    have start : base + Expected.continuation.produced + reserve (first ++ second) =
        base + 1 + reserve (first ++ second) := rfl
    rw [start, heightFrom_popped waiting.1]
    simp [reserve, arity, Expected.produced]
    omega
  | @separator n ts _ ih =>
    obtain ⟨below, rfl⟩ : ∃ rest, below = .openBracket :: rest := by
      cases below with
      | nil => exact absurd rfl (inside (Nat.succ_pos n))
      | cons t rest => exact ⟨rest, by rw [bottom t rfl]⟩
    intro base
    have body : Produces .operand n ts [] (.openBracket :: below) :=
      ih (by simp) bottom (by simp)
    obtain ⟨out, pending', waiting', reads, reached⟩ := body (base + 1)
    have read : Reads (pending ++ .openBracket :: below) [.separator] pending
        (.openBracket :: below) := reads_separator fun t within => (waiting t within).1
    refine ⟨pending ++ out, pending', waiting', read.cons reads, ?_⟩
    have popped := heightFrom_waiting waiting base
    rw [heightFrom_append, Expected.produced, popped, Option.bind_some]
    have height : base + (n + 1) + 1 = base + 1 + n + 1 := by omega
    rw [height]
    exact reached

/-- A well applied list gets a program, in front of which nothing is missing but what the list
continues. -/
theorem program (applied : Applied next 0 ts) :
    ∃ program, ofTokens ts = .ok program ∧ heightFrom next.produced program = some 1 := by
  have whole : Produces next 0 ts [] [] := applied.produces (by simp) (by simp) (by simp)
  obtain ⟨out, pending, waiting, reads, reached⟩ := whole 0
  rw [List.nil_append, List.append_nil] at reads
  refine ⟨out ++ pending, reads.ofTokens fun t within => (waiting t within).1, ?_⟩
  have start : heightFrom next.produced out = some (0 + 1 + reserve pending) := by
    simpa [reserve] using reached
  rw [heightFrom_append, start, Option.bind_some, heightFrom_waiting waiting]

/-- The program of a well applied list that begins with an operand is complete. -/
theorem isComplete (applied : Applied .operand 0 ts) :
    ∃ program, ofTokens ts = .ok program ∧ IsComplete program :=
  applied.program

/-- The program of a list that continues an operand lacks that. -/
theorem not_isComplete (applied : Applied .continuation 0 ts) {program : List Token}
    (ordered : ofTokens ts = .ok program) : ¬ IsComplete program := by
  intro complete
  obtain ⟨program', ordered', reached⟩ := applied.program
  obtain rfl := Except.ok.inj (ordered.symm.trans ordered')
  have more := heightFrom_succ complete
  rw [Expected.produced] at reached
  rw [more] at reached
  simp at reached

end Applied

end Token

end UnitCalc
