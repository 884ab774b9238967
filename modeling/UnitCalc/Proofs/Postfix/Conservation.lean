/-
# What ordering keeps of a list

Any list of tokens can be ordered, whether it makes sense or not, as far as its brackets go.
It has a program exactly when every closing bracket and every separator stands in a bracket, and
all brackets are closed. Then nothing gets lost: the program holds all tokens of the list but
those that only group, and operands and factorials stay in the order in which they were read.

## Main definitions

* `Postfix.Strays`, `Postfix.IsBracketed`: lists that leave their brackets, and lists that have
  a program.
* `Postfix.Moves`: what one token does to the stack and the output.

## Main results

* `Postfix.Moves.or_strays`: every token makes a move, or stands outside of all brackets.
* `Postfix.ofTokens_outcome`: which lists have a program, what is wrong with the others, and
  what the program consists of.
-/

import Mathlib.Data.List.Induction
import UnitCalc.Proofs.Postfix.Complete

namespace UnitCalc

namespace Token

/-- The token belongs into a bracket: it closes one, or separates what is inside of it. -/
def endsArgument : Token → Bool
  | closeBracket | separator => true
  | _ => false

/-- The token stands in a program, and not only groups others. -/
def isKept : Token → Bool
  | blank _ | openBracket | closeBracket | separator => false
  | _ => true

/-- The token goes to the output as soon as it is read: an operand, or a factorial. -/
def isPlaced : Token → Bool
  | factorial => true
  | t => t.isOperand

/-- The token as it stands in a program: a product between units is a plain product again. -/
def settled : Token → Token
  | operator symbol order => operator symbol (Postfix.waitingOrder symbol order)
  | t => t

/-- Nothing but the order of a product between units is changed. -/
theorem settled_cases (t : Token) :
    t.settled = t ∨
      t = operator '*' unitTermOrder ∧ t.settled = operator '*' Operator.multiply.order := by
  cases t with
  | operator symbol order =>
    rw [settled, Postfix.waitingOrder]
    split
    · next tight =>
      obtain ⟨rfl, rfl⟩ : order = unitTermOrder ∧ symbol = '*' := by simpa using tight
      exact .inr ⟨rfl, rfl⟩
    · exact .inl rfl
  | _ => exact .inl rfl

end Token

namespace Postfix

open Token

variable {stack stack' out ts before : List Token} {t : Token} {depth depth' : Nat}

/-! ## Brackets -/

/-- The closing brackets of a list. -/
def closeBrackets (ts : List Token) : Nat :=
  ts.countP fun
    | .closeBracket => true
    | _ => false

/-- Behind `depth` open brackets, a closing bracket or a separator of the list stands outside of
all brackets. -/
def Strays (depth : Nat) (ts : List Token) : Prop :=
  ∃ before t after, ts = before ++ t :: after ∧ t.endsArgument = true ∧
    depth + openBrackets before ≤ closeBrackets before

/-- No beginning of the list has more closing than opening brackets, the list has as many of the
ones as of the others, and every separator stands in a bracket. -/
structure IsBracketed (ts : List Token) : Prop where
  beginnings : ∀ before, before <+: ts → closeBrackets before ≤ openBrackets before
  closed : closeBrackets ts = openBrackets ts
  separators : ∀ before after, ts = before ++ .separator :: after →
    closeBrackets before < openBrackets before

theorem openBrackets_append (ts us : List Token) :
    openBrackets (ts ++ us) = openBrackets ts + openBrackets us :=
  List.countP_append

theorem openBrackets_cons (t : Token) (ts : List Token) :
    openBrackets (t :: ts) = openBrackets [t] + openBrackets ts :=
  openBrackets_append [t] ts

theorem closeBrackets_append (ts us : List Token) :
    closeBrackets (ts ++ us) = closeBrackets ts + closeBrackets us :=
  List.countP_append

theorem closeBrackets_cons (t : Token) (ts : List Token) :
    closeBrackets (t :: ts) = closeBrackets [t] + closeBrackets ts :=
  closeBrackets_append [t] ts

theorem openBrackets_eq_zero (closed : ∀ t ∈ ts, isNotOpen t = true) : openBrackets ts = 0 := by
  rw [openBrackets, List.countP_eq_zero]
  intro t within
  simp [closed t within]

theorem not_strays_nil (depth : Nat) : ¬ Strays depth [] := by
  rintro ⟨before, t, after, split, -⟩
  cases before <;> cases split

/-- A list strays with its first token, or behind it. -/
theorem strays_cons (moved : depth' + closeBrackets [t] = depth + openBrackets [t]) :
    Strays depth (t :: ts) ↔ t.endsArgument = true ∧ depth = 0 ∨ Strays depth' ts := by
  constructor
  · rintro ⟨before, u, after, split, ends, outside⟩
    cases before with
    | nil =>
      cases split
      exact .inl ⟨ends, Nat.le_zero.1 outside⟩
    | cons v before =>
      cases split
      rw [openBrackets_cons, closeBrackets_cons] at outside
      exact .inr ⟨before, u, after, rfl, ends, by omega⟩
  · rintro (⟨ends, rfl⟩ | ⟨before, u, after, rfl, ends, outside⟩)
    · exact ⟨[], t, ts, rfl, ends, Nat.le_refl 0⟩
    · refine ⟨t :: before, u, after, rfl, ends, ?_⟩
      rw [openBrackets_cons, closeBrackets_cons]
      omega

/-- A list that does not stray never closes more than it opened. -/
theorem closeBrackets_le (inside : ¬ Strays depth ts) :
    closeBrackets ts ≤ depth + openBrackets ts := by
  induction ts using List.reverseRec with
  | nil => exact Nat.zero_le _
  | append_singleton ts t ih =>
    have earlier : ¬ Strays depth ts := by
      rintro ⟨before, u, after, rfl, ends, outside⟩
      exact inside ⟨before, u, after ++ [t], by simp, ends, outside⟩
    have before := ih earlier
    rw [closeBrackets_append, openBrackets_append]
    by_cases ends : t.endsArgument = true
    · -- the bracket that is closed here was open
      have open_ : ¬ depth + openBrackets ts ≤ closeBrackets ts := fun outside =>
        inside ⟨ts, t, [], rfl, ends, outside⟩
      have one : closeBrackets [t] ≤ 1 := List.countP_le_length
      omega
    · have none : closeBrackets [t] = 0 := by
        cases t <;> first | rfl | exact absurd rfl ends
      omega

theorem isBracketed_iff :
    IsBracketed ts ↔ ¬ Strays 0 ts ∧ closeBrackets ts = openBrackets ts := by
  constructor
  · refine fun bracketed => ⟨?_, bracketed.closed⟩
    rintro ⟨before, t, after, rfl, ends, outside⟩
    rw [Nat.zero_add] at outside
    cases t with
    | separator => exact Nat.not_lt.2 outside (bracketed.separators before after rfl)
    | closeBracket =>
      have closed := bracketed.beginnings (before ++ [.closeBracket]) ⟨after, by simp⟩
      rw [closeBrackets_append, openBrackets_append] at closed
      have one : closeBrackets [.closeBracket] = 1 := rfl
      have none : openBrackets [.closeBracket] = 0 := rfl
      omega
    | _ => cases ends
  · rintro ⟨inside, closed⟩
    refine ⟨?_, closed, ?_⟩
    · rintro before ⟨after, rfl⟩
      have earlier : ¬ Strays 0 before := by
        rintro ⟨first, u, rest, rfl, ends, outside⟩
        exact inside ⟨first, u, rest ++ after, by simp, ends, outside⟩
      simpa using closeBrackets_le earlier
    · rintro before after rfl
      by_contra outside
      exact inside ⟨before, .separator, after, rfl, rfl, by omega⟩

/-! ## Moves -/

/-- What a token does: above the stack that it leaves stood what it puts out, and with a bracket
what waited inside of it. -/
inductive Moves : List Token → Token → List Token → List Token → Prop where
  | skip (stack : List Token) (text : String) : Moves stack (.blank text) [] stack
  | put (stack : List Token) {t : Token} (operand : t.isOperand = true) : Moves stack t [t] stack
  | wait (stack : List Token) {t : Token} (kept : t.isKept = true) (settled : t.settled = t)
    (unplaced : t.isPlaced = false) : Moves stack t [] (t :: stack)
  | open_ (stack : List Token) : Moves stack .openBracket [] (.openBracket :: stack)
  | operator {pending : List Token} (inside : ∀ t ∈ pending, isNotOpen t = true)
    (stack : List Token) (symbol : Char) (order : Int) :
    Moves (pending ++ stack) (.operator symbol order) pending
      (.operator symbol (waitingOrder symbol order) :: stack)
  | factorial {pending : List Token} (inside : ∀ t ∈ pending, isNotOpen t = true)
    (stack : List Token) : Moves (pending ++ stack) .factorial (pending ++ [.factorial]) stack
  | close {pending : List Token} (inside : ∀ t ∈ pending, isNotOpen t = true)
    (stack : List Token) : Moves (pending ++ .openBracket :: stack) .closeBracket pending stack
  | separate {pending : List Token} (inside : ∀ t ∈ pending, isNotOpen t = true)
    (stack : List Token) :
    Moves (pending ++ .openBracket :: stack) .separator pending (.openBracket :: stack)

namespace Moves

/-- Every token makes a move, or it belongs into a bracket and there is none. -/
theorem or_strays (stack : List Token) (t : Token) :
    (∃ out stack', Moves stack t out stack' ∧ Reads stack [t] out stack') ∨
      t.endsArgument = true ∧ openBrackets stack = 0 ∧
        ∀ ts, ofTokensFrom stack (t :: ts) = .error .missingLeftBracket := by
  -- A stack that has no bracket left is all that keeps a token from moving.
  have bottom : ∀ p : Token → Bool, ∀ t ∈ ([] : List Token).head?, p t = false := by simp
  have bracketed : ∀ t : Token, t.endsArgument = true →
      (∃ pending below, stack = pending ++ .openBracket :: below ∧
        ∀ t ∈ pending, isNotOpen t = true) ∨
      openBrackets stack = 0 ∧ stack.dropWhile isNotOpen = [] := by
    intro t _
    obtain ⟨first, second, split, inside, stays⟩ :=
      exists_span isNotOpen stack (bottom _)
    rw [List.append_nil] at stays
    cases second with
    | nil =>
      rw [List.append_nil] at split
      subst split
      exact .inr ⟨openBrackets_eq_zero inside, List.dropWhile_eq_nil_iff.2 inside⟩
    | cons u below =>
      have bracket : u = .openBracket := by
        have stop := stays u rfl
        cases u <;> first | rfl | cases stop
      exact .inl ⟨first, below, by rw [split, bracket], inside⟩
  cases t with
  | blank text => exact .inl ⟨[], stack, skip stack text, fun rest => Reads.nil stack rest⟩
  | constant | unit | «variable» | block | input =>
    exact .inl ⟨_, stack, put stack rfl, reads_operand rfl⟩
  | negation => exact .inl ⟨[], _, wait stack rfl rfl rfl, reads_waiting (.inr (.inr ⟨_, rfl⟩))⟩
  | function | binaryFunction | multiFunction | conditional | call =>
    exact .inl ⟨[], _, wait stack rfl rfl rfl, reads_waiting (.inl rfl)⟩
  | openBracket => exact .inl ⟨[], _, open_ stack, reads_waiting (.inr (.inl rfl))⟩
  | operator symbol order =>
    obtain ⟨first, second, rfl, yields, stays⟩ :=
      exists_span (yieldsTo symbol order) stack (bottom _)
    rw [List.append_nil] at stays
    refine .inl ⟨first, _, operator (fun t within => ?_) second symbol order,
      reads_operator yields stays⟩
    have given := yields t within
    cases t <;> first | rfl | cases given
  | factorial =>
    obtain ⟨first, second, rfl, yields, stays⟩ :=
      exists_span yieldsToFactorial stack (bottom _)
    rw [List.append_nil] at stays
    refine .inl ⟨_, second, factorial (fun t within => ?_) second, reads_factorial yields stays⟩
    have given := yields t within
    cases t <;> first | rfl | cases given
  | closeBracket =>
    rcases bracketed .closeBracket rfl with ⟨pending, below, rfl, inside⟩ | ⟨none, dropped⟩
    · exact .inl ⟨pending, below, close inside below, reads_closeBracket inside⟩
    · exact .inr ⟨rfl, none, fun ts => by rw [ofTokensFrom, dropped]⟩
  | separator =>
    rcases bracketed .separator rfl with ⟨pending, below, rfl, inside⟩ | ⟨none, dropped⟩
    · exact .inl ⟨pending, _, separate inside below, reads_separator inside⟩
    · exact .inr ⟨rfl, none, fun ts => by rw [ofTokensFrom, dropped]⟩

/-- The open brackets on the stack are those that surround the rest of the list. -/
theorem openBrackets_eq (moves : Moves stack t out stack') :
    openBrackets stack' + closeBrackets [t] = openBrackets stack + openBrackets [t] := by
  cases moves with
  | skip => rfl
  | put _ operand => cases t <;> first | rfl | cases operand
  | wait _ kept =>
    have none : closeBrackets [t] = 0 := by cases t <;> first | rfl | cases kept
    rw [openBrackets_cons, none, Nat.add_zero, Nat.add_comm]
  | open_ =>
    have none : closeBrackets [.openBracket] = 0 := rfl
    rw [openBrackets_cons, none, Nat.add_zero, Nat.add_comm]
  | operator inside below symbol order =>
    rw [openBrackets_append, openBrackets_eq_zero inside, openBrackets_cons]
    exact Nat.add_zero _
  | factorial inside below =>
    rw [openBrackets_append, openBrackets_eq_zero inside, Nat.zero_add]
    rfl
  | close inside below =>
    rw [openBrackets_append, openBrackets_eq_zero inside, openBrackets_open, Nat.zero_add]
    rfl
  | separate inside below =>
    rw [openBrackets_append, openBrackets_eq_zero inside, Nat.zero_add]
    rfl

/-- A token that moves stands in a bracket, if it belongs into one. -/
theorem inside (moves : Moves stack t out stack') :
    ¬ (t.endsArgument = true ∧ openBrackets stack = 0) := by
  rintro ⟨ends, none⟩
  cases moves with
  | put _ operand => cases t <;> first | (cases ends; done) | cases operand
  | wait _ kept => cases t <;> first | (cases ends; done) | cases kept
  | close inside below | separate inside below =>
    rw [openBrackets_append, openBrackets_open] at none
    omega
  | _ => cases ends

/-- Nothing gets lost in a move: what waits, and the token that is read, is put out or waits
behind it. -/
theorem perm (moves : Moves stack t out stack') :
    (out ++ stack'.filter isNotOpen).Perm
      (stack.filter isNotOpen ++ ([t].filter isKept).map settled) := by
  have whole {pending : List Token} (inside : ∀ t ∈ pending, isNotOpen t = true) :
      pending.filter isNotOpen = pending := List.filter_eq_self.2 inside
  cases moves with
  | skip => simp [isKept]
  | put _ operand =>
    have kept : t.isKept = true ∧ t.settled = t := by
      cases t <;> first | exact ⟨rfl, rfl⟩ | cases operand
    simpa [kept] using @List.perm_append_comm _ [t] _
  | wait _ kept same =>
    have notOpen : isNotOpen t = true := by cases t <;> first | rfl | cases kept
    simpa [kept, same, notOpen] using @List.perm_append_comm _ [t] _
  | open_ => simp [isKept, isNotOpen]
  | operator inside below symbol order =>
    rw [List.filter_append, whole inside, List.append_assoc, List.filter_cons_of_pos rfl]
    exact (@List.perm_append_comm _ [_] _).append_left _
  | factorial inside below =>
    rw [List.filter_append, whole inside, List.append_assoc, List.append_assoc]
    exact List.perm_append_comm.append_left _
  | close inside below =>
    rw [List.filter_append, whole inside]
    simp [isKept, isNotOpen]
  | separate inside below =>
    rw [List.filter_append, whole inside]
    simp [isKept, isNotOpen]

/-- Operands and factorials never wait, so they are put out as they are read. -/
theorem placed (moves : Moves stack t out stack') (waiting : ∀ u ∈ stack, u.isPlaced = false) :
    out.filter isPlaced = [t].filter isPlaced ∧ ∀ u ∈ stack', u.isPlaced = false := by
  have none {pending : List Token} (unplaced : ∀ u ∈ pending, u.isPlaced = false) :
      pending.filter isPlaced = [] := by
    rw [List.filter_eq_nil_iff]
    intro u within
    simp [unplaced u within]
  cases moves with
  | skip => exact ⟨rfl, waiting⟩
  | put _ operand => exact ⟨rfl, waiting⟩
  | wait _ kept same unplaced =>
    exact ⟨(List.filter_cons_of_neg (by simp [unplaced])).symm,
      List.forall_mem_cons.2 ⟨unplaced, waiting⟩⟩
  | open_ => exact ⟨rfl, List.forall_mem_cons.2 ⟨rfl, waiting⟩⟩
  | operator inside below symbol order =>
    rw [List.forall_mem_append] at waiting
    exact ⟨none waiting.1, List.forall_mem_cons.2 ⟨rfl, waiting.2⟩⟩
  | factorial inside below =>
    rw [List.forall_mem_append] at waiting
    exact ⟨by rw [List.filter_append, none waiting.1, List.nil_append], waiting.2⟩
  | close inside below =>
    rw [List.forall_mem_append, List.forall_mem_cons] at waiting
    exact ⟨none waiting.1, waiting.2.2⟩
  | separate inside below =>
    rw [List.forall_mem_append] at waiting
    exact ⟨none waiting.1, waiting.2⟩

end Moves

/-! ## Whole lists -/

/-- How the order of a list ends behind `depth` open brackets. -/
inductive Ordered (depth : Nat) (ts : List Token) : Except CalcError (List Token) → Prop where
  | ok (program : List Token) (inside : ¬ Strays depth ts)
    (closed : closeBrackets ts = depth + openBrackets ts) : Ordered depth ts (.ok program)
  | strays (outside : Strays depth ts) : Ordered depth ts (.error .missingLeftBracket)
  | unclosed (inside : ¬ Strays depth ts) (open_ : closeBrackets ts ≠ depth + openBrackets ts) :
    Ordered depth ts (.error .missingRightBracket)

theorem ordered_ofTokensFrom (stack ts : List Token) :
    Ordered (openBrackets stack) ts (ofTokensFrom stack ts) := by
  -- The induction is on the list. What a token does to the stack is one move.
  induction ts generalizing stack with
  | nil =>
    unfold ofTokensFrom drain
    split
    · next all =>
      have none := openBrackets_eq_zero (List.all_eq_true.1 all)
      exact .ok stack (not_strays_nil _) none.symm
    · next some =>
      refine .unclosed (not_strays_nil _) fun none => some (List.all_eq_true.2 fun t within => ?_)
      have closed := List.countP_eq_zero.1 none.symm t within
      simpa using closed
  | cons t ts ih =>
    rcases Moves.or_strays stack t with ⟨out, stack', moves, reads⟩ | ⟨ends, none, fails⟩
    · have moved := moves.openBrackets_eq
      have same : Strays (openBrackets stack) (t :: ts) ↔ Strays (openBrackets stack') ts := by
        rw [strays_cons moved, or_iff_right moves.inside]
      have count : closeBrackets (t :: ts) = openBrackets stack + openBrackets (t :: ts) ↔
          closeBrackets ts = openBrackets stack' + openBrackets ts := by
        rw [closeBrackets_cons, openBrackets_cons]
        omega
      have read : ofTokensFrom stack (t :: ts) = (ofTokensFrom stack' ts).map (out ++ ·) := reads ts
      rw [read]
      have rest := ih stack'
      revert rest
      generalize ofTokensFrom stack' ts = result
      rintro (⟨program, inside, closed⟩ | outside | ⟨inside, open_⟩)
      · exact .ok _ (mt same.1 inside) (count.2 closed)
      · exact .strays (same.2 outside)
      · exact .unclosed (mt same.1 inside) (mt count.1 open_)
    · rw [fails]
      exact .strays ⟨[], t, ts, rfl, ends, by rw [none]; exact Nat.le_refl 0⟩

/-- The tokens of a program are those that waited and those of the list, and the operands and the
factorials are in the order of the list. -/
theorem conserved_ofTokensFrom {program : List Token} (waiting : ∀ t ∈ stack, t.isPlaced = false)
    (ordered : ofTokensFrom stack ts = .ok program) :
    program.Perm (stack.filter isNotOpen ++ (ts.filter isKept).map settled) ∧
      program.filter isPlaced = ts.filter isPlaced := by
  induction ts generalizing stack program with
  | nil =>
    unfold ofTokensFrom drain at ordered
    split at ordered
    · next all =>
      cases ordered
      refine ⟨?_, List.filter_eq_nil_iff.2 fun t within => by simp [waiting t within]⟩
      rw [List.filter_eq_self.2 (List.all_eq_true.1 all)]
      simp
    · cases ordered
  | cons t ts ih =>
    rcases Moves.or_strays stack t with ⟨out, stack', moves, reads⟩ | ⟨-, -, fails⟩
    · have read : ofTokensFrom stack (t :: ts) = (ofTokensFrom stack' ts).map (out ++ ·) := reads ts
      rw [read] at ordered
      obtain ⟨rest, ordered', rfl⟩ := exists_of_map_ok ordered
      obtain ⟨first, waiting'⟩ := moves.placed waiting
      obtain ⟨parts, placed⟩ := ih waiting' ordered'
      rw [← List.singleton_append (l := ts), List.filter_append, List.filter_append,
        List.filter_append, first, placed, List.map_append]
      refine ⟨?_, rfl⟩
      calc (out ++ rest).Perm (out ++ (stack'.filter isNotOpen ++ (ts.filter isKept).map settled)) :=
            parts.append_left out
        _ = (out ++ stack'.filter isNotOpen) ++ (ts.filter isKept).map settled :=
            (List.append_assoc ..).symm
        List.Perm _ ((stack.filter isNotOpen ++ ([t].filter isKept).map settled) ++
            (ts.filter isKept).map settled) := moves.perm.append_right _
        _ = _ := List.append_assoc ..
    · rw [fails] at ordered
      cases ordered

/-- A list has a program exactly when it is bracketed. Without a program, a bracket is missing on
the left if something strays, and otherwise on the right. A program consists of the tokens of the
list but those that only group, with products between units as plain products and all else
unchanged, and it keeps the operands and the factorials in their order. -/
theorem ofTokens_outcome (ts : List Token) :
    ((∃ program, ofTokens ts = .ok program) ↔ IsBracketed ts) ∧
      (ofTokens ts = .error .missingLeftBracket ↔ Strays 0 ts) ∧
      (ofTokens ts = .error .missingRightBracket ↔ ¬ Strays 0 ts ∧ ¬ IsBracketed ts) ∧
      (∀ program, ofTokens ts = .ok program →
        program.Perm ((ts.filter isKept).map settled) ∧
          program.filter isPlaced = ts.filter isPlaced) ∧
      ∀ t : Token, t.settled = t ∨
        t = .operator '*' unitTermOrder ∧ t.settled = .operator '*' Operator.multiply.order := by
  have ordered : Ordered 0 ts (ofTokens ts) := ordered_ofTokensFrom [] ts
  have conserved : ∀ program, ofTokens ts = .ok program →
      program.Perm ((ts.filter isKept).map settled) ∧
        program.filter isPlaced = ts.filter isPlaced :=
    fun program made => conserved_ofTokensFrom (List.forall_mem_nil _) made
  refine and_assoc.1 (and_assoc.1 ⟨?_, conserved, settled_cases⟩)
  generalize ofTokens ts = result at ordered
  rw [isBracketed_iff]
  cases ordered with
  | ok program inside closed =>
    rw [Nat.zero_add] at closed
    simp [inside, closed]
  | strays outside => simp [outside]
  | unclosed inside open_ =>
    rw [Nat.zero_add] at open_
    simp [inside, open_]

/-- A separator outside of all brackets and a bracket that is not closed are told apart, also in a
list that makes no sense otherwise. -/
example : ofTokens [.factorial, .separator, .openBracket] = .error .missingLeftBracket ∧
    ofTokens [.openBracket, .separator, .ofSymbol '*'] = .error .missingRightBracket :=
  ⟨rfl, rfl⟩

end Postfix

end UnitCalc
