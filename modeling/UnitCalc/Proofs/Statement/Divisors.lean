/-
# Brackets around divisors in statements

A scan puts a bracket in front of a number when it comes to its unit, and closes the bracket when
it comes to what ends the divisor. The same text can be scanned without looking for divisors. The
first scan has read what the second one has, with brackets around all divisors.

## Main definitions

* `Scan.runPlain`: a scan that takes no operator for a division.
* `Scan.Corresponds`: a scan has read what a plain one has, up to the brackets around divisors.

## Main results

* `Scan.run_parallel`: scans that begin together end together.
* `Scan.run_divisors`: the brackets around divisors, and the partners of those that were written.
-/

import UnitCalc.Proofs.Session.Parallel
import UnitCalc.Proofs.Statement.Scan
import UnitCalc.Proofs.Token.Divisors

namespace UnitCalc

open SessionM
open Token (bracketDivisors divisors isJoin)

namespace Scan

variable {a b : Scan} {t e u : Token} {ts front back : List Token} {allowed : Bool} {c : Char}
  {rest after : List Char}

/-- The same tokens, behind an operator that divides or not. -/
def divided (s : Scan) (dividing : Bool) : Scan :=
  { s with isDividing := dividing }

/-- Reads the rest of a statement like `run`, but puts no brackets around divisors. -/
def runPlain (limit : Nat) (create : Method → Shorter limit → SessionM Nat) (allowed : Bool) :
    (cs : List Char) → cs.length ≤ limit → Scan → SessionM Scan
  | [], _, s => return s
  | c :: rest, within, s => do
    if CharClass.of c = .stop then return s
    else
      let (s, after) ← s.lexeme limit create allowed c rest within
      runPlain limit create allowed after.1 (Nat.le_trans (Nat.le_of_lt_succ after.2)
        (Nat.le_of_succ_le within)) (s.divided false)
termination_by cs => cs.length
decreasing_by exact after.2

@[simp]
theorem tokens_divided (s : Scan) (dividing : Bool) : (s.divided dividing).tokens = s.tokens :=
  rfl

theorem reversed_eq (s : Scan) : s.reversed = s.tokens.reverse :=
  (List.reverse_reverse _).symm

theorem last?_eq_getLast? (s : Scan) : s.last? = s.tokens.getLast? := by
  rw [last?, reversed_eq, List.head?_reverse]

theorem takesUnit_eq (s : Scan) : s.takesUnit = s.last?.any Token.takesUnit := by
  unfold takesUnit
  cases s.last? with
  | none => rfl
  | some t => cases t <;> rfl

theorem unitSuffix_of_not {s : Scan} (other : (s.isDividing && !s.inDivisor) = false) (u : Token) :
    s.unitSuffix u = (s.push (.operator '*' unitSuffixOrder)).push u := by
  simp only [unitSuffix, other]

theorem unitSuffix_divisor {s : Scan} {before : List Token}
    (starts : (s.isDividing && !s.inDivisor) = true) (last : s.reversed = t :: before) (u : Token) :
    s.unitSuffix u = (Scan.push { s with
      reversed := t :: .openBracket :: before, inDivisor := true }
        (.operator '*' unitSuffixOrder)).push u := by
  simp only [unitSuffix, starts, last]

theorem head?_append_left (nonempty : ts ≠ []) (us : List Token) :
    (ts ++ us).head? = ts.head? := by
  cases ts with
  | nil => exact absurd rfl nonempty
  | cons => rfl

theorem head?_joined {s : Scan} (nonempty : s.tokens ≠ []) (t u : Token) :
    ((s.push t).push u).tokens.head? = s.tokens.head? := by
  rw [tokens_push, tokens_push, List.append_assoc, head?_append_left nonempty]

/-! ## Scans that belong together -/

/-- The tokens of a scan are those of a plain scan with brackets around divisors, so far: the last
one is a number, which a unit may follow, or not, or the bracket around a divisor is open. -/
inductive Grouping (a b : Scan) : Prop
  | outside (closed : a.inDivisor = false) (last : ∀ t ∈ a.last?, t.takesUnit = false)
    (grouped : ∀ rest, bracketDivisors false (b.tokens ++ rest) =
      a.tokens ++ bracketDivisors a.isDividing rest)
  | number {front back : List Token} {t : Token} (closed : a.inDivisor = false)
    (takes : t.takesUnit = true) (tokens : a.tokens = front ++ [t]) (read : b.tokens = back ++ [t])
    (begun : a.isDividing = true → front ≠ [])
    (grouped : ∀ rest, bracketDivisors false (back ++ t :: rest) =
      front ++ bracketDivisors a.isDividing (t :: rest))
  | inside {front back behind : List Token} {t : Token} (opened : a.inDivisor = true)
    (quantity : t.isQuantity behind = true) (goes : ∀ u ∈ behind, u.endsDivisor = false)
    (tokens : a.tokens = front ++ .openBracket :: t :: behind)
    (read : b.tokens = back ++ t :: behind)
    (grouped : ∀ rest, bracketDivisors false (back ++ t :: rest) =
      front ++ bracketDivisors true (t :: rest))

/-- Outside of divisors, what follows is bracketed by itself unless it joins a unit to the last
number. -/
theorem Grouping.grouped_cons (grouping : Grouping a b) (closed : a.inDivisor = false)
    (join : t.isJoin = false) (rest : List Token) :
    bracketDivisors false (b.tokens ++ t :: rest) =
      a.tokens ++ bracketDivisors a.isDividing (t :: rest) := by
  cases grouping with
  | outside _ _ grouped => exact grouped (t :: rest)
  | @number front back n _ takes tokens read _ grouped =>
    have alone : n.isQuantity (t :: rest) = false := by
      rw [Token.isQuantity, List.head?_cons, Option.any_some, join, Bool.and_false]
    rw [tokens, read, List.append_assoc, List.append_assoc, List.singleton_append,
      List.singleton_append, grouped, Token.bracketDivisors_cons (by rw [alone, Bool.and_false]),
      Token.dividesAfter_of_takesUnit takes]
  | inside opened =>
    rw [closed] at opened
    cases opened

/-- Inside of a divisor the token that is added belongs to it. -/
theorem Grouping.push_inside (grouping : Grouping a b) (opened : a.inDivisor = true)
    (goes : t.endsDivisor = false) (dividing : Bool) :
    Grouping ((a.divided dividing).push t) (b.push t) := by
  cases grouping with
  | outside closed | number closed =>
    rw [opened] at closed
    cases closed
  | @inside front back behind n _ quantity all tokens read grouped =>
    have pushed : ((a.divided dividing).push t).tokens =
        front ++ .openBracket :: n :: (behind ++ [t]) := by
      rw [tokens_push, tokens_divided, tokens, List.append_assoc]
      rfl
    have followed : (b.push t).tokens = back ++ n :: (behind ++ [t]) := by
      rw [tokens_push, read, List.append_assoc]
      rfl
    exact .inside opened (Token.isQuantity_append quantity _)
      (List.forall_mem_append.2 ⟨all, List.forall_mem_singleton.2 goes⟩) pushed followed grouped

/-- A scan has read what a plain scan has, and put brackets around the divisors. -/
structure Corresponds (a b : Scan) : Prop where
  undivided : b.isDividing = false
  closed : b.inDivisor = false
  assignment : a.assignment = 0 ↔ b.assignment = 0
  first : a.tokens.head? = b.tokens.head?
  last : a.last? = b.last?
  begun : a.isDividing = true → a.tokens ≠ []
  grouping : Grouping a b

namespace Corresponds

theorem start : Corresponds {} {} :=
  ⟨rfl, rfl, .rfl, rfl, rfl, nofun, .outside rfl nofun fun _ => rfl⟩

variable (corresponds : Corresponds a b)

include corresponds

theorem divided_eq : b.divided false = b := by
  obtain ⟨reversed, assignment, isDividing, inDivisor⟩ := b
  obtain rfl := corresponds.undivided
  rfl

theorem closeDivisor_eq : b.closeDivisor = b := by
  rw [closeDivisor, corresponds.closed]
  rfl

theorem empty_iff : a.reversed = [] ↔ b.reversed = [] := by
  rw [reversed_eq, reversed_eq, List.reverse_eq_nil_iff, List.reverse_eq_nil_iff,
    ← List.head?_eq_none_iff, ← List.head?_eq_none_iff, corresponds.first]

theorem first_push (t : Token) : (a.push t).tokens.head? = (b.push t).tokens.head? := by
  rw [tokens_push, tokens_push, List.head?_append, List.head?_append, corresponds.first]

/-- A token that goes on with the divisor, if there is one, and takes no unit. -/
theorem push (goes : t.endsDivisor = false) (join : t.isJoin = false)
    (takes : t.takesUnit = false) :
    Corresponds ((a.divided (t.dividesAfter a.isDividing)).push t) (b.push t) where
  undivided := corresponds.undivided
  closed := corresponds.closed
  assignment := corresponds.assignment
  first := corresponds.first_push t
  last := rfl
  begun _ := by simp
  grouping := by
    rcases Bool.eq_false_or_eq_true a.inDivisor with opened | closed
    · exact corresponds.grouping.push_inside opened goes _
    · refine .outside closed (fun u last => ?_) fun rest => ?_
      · cases last
        exact takes
      · have alone := Token.not_isQuantity takes rest
        rw [tokens_push, tokens_push, List.append_assoc, List.append_assoc, List.singleton_append,
          corresponds.grouping.grouped_cons closed join, tokens_divided,
          Token.bracketDivisors_cons (by rw [alone, Bool.and_false])]
        rfl

/-- A number or an input, which a unit may follow. -/
theorem pushNumber (takes : t.takesUnit = true) : Corresponds (a.push t) (b.push t) where
  undivided := corresponds.undivided
  closed := corresponds.closed
  assignment := corresponds.assignment
  first := corresponds.first_push t
  last := rfl
  begun _ := by simp
  grouping := by
    rcases Bool.eq_false_or_eq_true a.inDivisor with opened | closed
    · exact corresponds.grouping.push_inside opened (Token.endsDivisor_of_takesUnit takes)
        a.isDividing
    · exact .number closed takes (a.tokens_push t) (b.tokens_push t) corresponds.begun
        (corresponds.grouping.grouped_cons closed (Token.isJoin_of_takesUnit takes))

/-- The bracket around a divisor is closed in front of a token that ends it. -/
theorem grouped_closeDivisor (ends : e.endsDivisor = true) (rest : List Token) :
    bracketDivisors false (b.tokens ++ e :: rest) =
      a.closeDivisor.tokens ++ e :: bracketDivisors (e.dividesAfter false) rest := by
  rcases Bool.eq_false_or_eq_true a.inDivisor with opened | closed
  · cases corresponds.grouping with
    | outside closed | number closed =>
      rw [opened] at closed
      cases closed
    | @inside front back behind t _ quantity all tokens read grouped =>
      have whole : a.closeDivisor.tokens = a.tokens ++ [.closeBracket] := by
        rw [closeDivisor, opened]
        exact a.tokens_push .closeBracket
      obtain ⟨tail, later⟩ := Token.tailOfDivisor_append ends behind rest
      obtain ⟨same, none⟩ := Token.tailOfDivisor_eq all
      rw [whole, tokens, read, List.append_assoc, List.cons_append, grouped,
        Token.bracketDivisors_quantity (Token.isQuantity_append quantity _), tail, later, same,
        none, List.nil_append, Token.bracketDivisors_ends ends]
      simp
  · have whole : a.closeDivisor = a := by
      rw [closeDivisor, closed]
      rfl
    rw [whole, corresponds.grouping.grouped_cons closed (Token.isJoin_of_endsDivisor ends),
      Token.bracketDivisors_ends ends]

theorem first_closeDivisor : a.closeDivisor.tokens.head? = b.tokens.head? := by
  rw [← corresponds.first]
  rcases Bool.eq_false_or_eq_true a.inDivisor with opened | closed
  · -- Something was read, since the bracket was opened.
    cases corresponds.grouping with
    | outside closed | number closed =>
      rw [opened] at closed
      cases closed
    | @inside front back behind t _ quantity all tokens read grouped =>
      rw [closeDivisor, opened]
      show (a.push .closeBracket).tokens.head? = _
      rw [tokens_push, tokens]
      cases front <;> rfl
  · rw [closeDivisor, closed]
    rfl

/-- A token that ends the divisor, if there is one. -/
theorem pushEnding (ends : e.endsDivisor = true) :
    Corresponds ((a.closeDivisor.divided (e.dividesAfter false)).push e) (b.push e) where
  undivided := corresponds.undivided
  closed := corresponds.closed
  assignment := by
    have same : a.closeDivisor.assignment = a.assignment := by
      unfold closeDivisor
      split <;> rfl
    exact same ▸ corresponds.assignment
  first := by
    rw [tokens_push, tokens_push, List.head?_append, List.head?_append, tokens_divided,
      corresponds.first_closeDivisor]
  last := rfl
  begun _ := by simp
  grouping := by
    have closed : a.closeDivisor.inDivisor = false := by
      unfold closeDivisor
      split
      · rfl
      · next other => exact Bool.not_eq_true _ ▸ other
    refine .outside closed (fun u last => ?_) fun rest => ?_
    · cases last
      exact Token.takesUnit_of_endsDivisor ends
    · rw [tokens_push, tokens_push, List.append_assoc, List.append_assoc, List.singleton_append,
        tokens_divided, corresponds.grouped_closeDivisor ends]
      rfl

/-- Where an assignment stands. -/
theorem assigned {n m : Nat} (same : n = 0 ↔ m = 0) :
    Corresponds { a with assignment := n } { b with assignment := m } where
  undivided := corresponds.undivided
  closed := corresponds.closed
  assignment := same
  first := corresponds.first
  last := corresponds.last
  begun := corresponds.begun
  grouping := by
    cases corresponds.grouping with
    | outside closed last grouped => exact .outside closed last grouped
    | number closed takes tokens read begun grouped =>
      exact .number closed takes tokens read begun grouped
    | inside opened quantity all tokens read grouped =>
      exact .inside opened quantity all tokens read grouped

/-! ## Lexemes -/

/-- Behind a token that was added, the plain scan forgets whether the last operator divides. -/
theorem forgets {a' : Scan} (dividing : Bool) (pushed : Corresponds a' (b.push t)) :
    Corresponds a' (((b.divided dividing).push t).divided false) := by
  have same : ((b.divided dividing).push t).divided false = b.push t :=
    congrArg (Scan.push · t) corresponds.divided_eq
  rwa [same]

theorem assign (allowed : Bool) :
    Agree (fun a' b' => Corresponds a' (b'.divided false))
      ((a.closeDivisor.divided (isDivision '=')).assign allowed)
      ((b.divided (isDivision '=')).assign allowed) := by
  have ends := corresponds.pushEnding (e := .ofSymbol '=') rfl
  have same : a.closeDivisor.assignment = a.assignment := by
    unfold closeDivisor
    split <;> rfl
  have begun : (0 < (a.closeDivisor.divided (isDivision '=')).assignment) ↔
      0 < (b.divided (isDivision '=')).assignment := by
    have := corresponds.assignment
    show 0 < a.closeDivisor.assignment ↔ 0 < b.assignment
    omega
  unfold Scan.assign
  simp only [begun]
  split
  · exact .error _
  · refine .ok ?_
    have empty : a.closeDivisor.reversed.length = 0 ↔ b.reversed.length = 0 := by
      rw [List.length_eq_zero_iff, List.length_eq_zero_iff, reversed_eq, reversed_eq b,
        List.reverse_eq_nil_iff, List.reverse_eq_nil_iff, ← List.head?_eq_none_iff,
        ← List.head?_eq_none_iff, corresponds.first_closeDivisor]
    exact (corresponds.forgets (isDivision '=') ends).assigned empty

theorem operator (allowed : Bool) (symbol : Char) :
    Agree (fun a' b' => Corresponds a' (b'.divided false)) (a.operator allowed symbol)
      (b.operator allowed symbol) := by
  have same : a.expectsOperand = b.expectsOperand := by
    rw [expectsOperand, expectsOperand, corresponds.last]
  unfold Scan.operator
  rw [same, corresponds.closeDivisor_eq]
  split
  · exact .ok (corresponds.forgets b.isDividing
      (corresponds.push (t := .negation Token.unordered) rfl rfl rfl))
  · by_cases power : symbol = '^'
    · subst power
      exact .ok (corresponds.forgets (isDivision '^')
        (corresponds.push (t := .ofSymbol '^') rfl rfl rfl))
    · have other : (symbol == '^') = false := beq_false_of_ne power
      simp only [other, Bool.false_eq_true, if_false]
      split
      · next equality =>
        obtain rfl := beq_iff_eq.1 equality
        exact corresponds.assign allowed
      · have ends : (Token.ofSymbol symbol).endsDivisor = true := by
          simp [Token.ofSymbol, Token.endsDivisor, power]
        exact .ok (corresponds.forgets (isDivision symbol) (corresponds.pushEnding ends))

theorem endOperand (ends : e.endsDivisor = true) (anew : e.dividesAfter false = false) :
    Corresponds (a.endOperand e) ((b.endOperand e).divided false) := by
  have pushed := corresponds.pushEnding ends
  rw [anew] at pushed
  unfold Scan.endOperand
  rw [corresponds.closeDivisor_eq]
  exact corresponds.forgets false pushed

theorem factorial : Agree (fun a' b' => Corresponds a' (b'.divided false)) a.factorial
    b.factorial := by
  have pushed : Corresponds (a.push .factorial) ((b.push .factorial).divided false) :=
    corresponds.forgets b.isDividing (corresponds.push (t := .factorial) rfl rfl rfl)
  unfold Scan.factorial
  rw [corresponds.last]
  cases b.last? with
  | none => exact .error _
  | some t =>
    cases t with
    | constant | closeBracket | «variable» => exact .ok pushed
    | _ => exact .error _

/-- The product that joins a number to its unit, and the unit. -/
theorem joined {a' : Scan} {value : Option Value} {name : String}
    (assignment : a'.assignment = a.assignment) (nonempty : a.tokens ≠ [])
    (first : a'.tokens.head? = a.tokens.head?) (last : a'.last? = some (.unit value name))
    (grouping : Grouping a' ((b.push (.operator '*' unitSuffixOrder)).push (.unit value name))) :
    Corresponds a' ((b.unitSuffix (.unit value name)).divided false) := by
  have same : (b.unitSuffix (.unit value name)).divided false =
      (b.push (.operator '*' unitSuffixOrder)).push (.unit value name) := by
    rw [unitSuffix_of_not (by rw [corresponds.undivided, Bool.false_and])]
    exact congrArg (fun s => (s.push (.operator '*' unitSuffixOrder)).push (.unit value name))
      corresponds.divided_eq
  rw [same]
  refine ⟨corresponds.undivided, corresponds.closed, ?_, ?_, last, fun _ none => ?_, grouping⟩
  · rw [assignment]
    exact corresponds.assignment
  · rw [first, head?_joined, corresponds.first]
    rwa [ne_eq, ← List.head?_eq_none_iff, ← corresponds.first, List.head?_eq_none_iff]
  · rw [last?_eq_getLast?, none] at last
    cases last

/-- The unit behind a number. The bracket of a divisor is put in front of the number. -/
theorem unitSuffix (takes : a.takesUnit = true) (value : Option Value) (name : String) :
    Corresponds (a.unitSuffix (.unit value name))
      ((b.unitSuffix (.unit value name)).divided false) := by
  cases corresponds.grouping with
  | outside closed last =>
    rw [takesUnit_eq, Option.any_eq_true] at takes
    obtain ⟨t, same, takes⟩ := takes
    rw [last t same] at takes
    cases takes
  | @number front back t closed takes tokens read begun grouped =>
    have last : a.reversed = t :: front.reverse := by
      rw [reversed_eq, tokens, List.reverse_append]
      rfl
    have nonempty : a.tokens ≠ [] := by simp [tokens]
    rcases Bool.eq_false_or_eq_true a.isDividing with divides | other
    · rw [unitSuffix_divisor (by rw [divides, closed]; rfl) last]
      have opened : Grouping (Scan.push { a with
          reversed := t :: .openBracket :: front.reverse, inDivisor := true }
            (.operator '*' unitSuffixOrder)) (b.push (.operator '*' unitSuffixOrder)) := by
        have quantity : t.isQuantity [.operator '*' unitSuffixOrder] = true := by
          rw [Token.isQuantity, takes]
          rfl
        rw [divides] at grouped
        refine .inside rfl quantity (List.forall_mem_singleton.2 rfl) ?_ ?_ grouped
        · simp [Scan.tokens, Scan.push]
        · rw [tokens_push, read, List.append_assoc]
          rfl
      refine corresponds.joined rfl nonempty ?_ rfl (opened.push_inside rfl rfl a.isDividing)
      rw [head?_joined (by simp [Scan.tokens]), tokens, head?_append_left (begun divides)]
      simp only [Scan.tokens, List.reverse_cons, List.reverse_reverse, List.append_assoc]
      exact head?_append_left (begun divides) _
    · rw [unitSuffix_of_not (by rw [other, Bool.false_and])]
      refine corresponds.joined rfl nonempty (head?_joined nonempty _ _) rfl
        (.outside closed ?_ fun rest => ?_)
      · rintro u ⟨⟩
        rfl
      · have alone (ts : List Token) (u : Token) : (false && u.isQuantity ts) = false := rfl
        have following := grouped (.operator '*' unitSuffixOrder :: .unit value name :: rest)
        rw [other, Token.bracketDivisors_cons (alone _ _), Token.dividesAfter_of_takesUnit takes,
          Token.bracketDivisors_cons (alone _ _),
          show Token.dividesAfter false (.operator '*' unitSuffixOrder) = false from rfl,
          Token.bracketDivisors_cons (alone _ _),
          show Token.dividesAfter false (.unit value name) = false from rfl] at following
        show _ = _ ++ bracketDivisors a.isDividing rest
        rw [tokens_push, tokens_push, tokens_push, tokens_push, tokens, read, other]
        simpa using following
  | inside opened _ _ tokens =>
    rw [unitSuffix_of_not (by rw [opened, Bool.not_true, Bool.and_false])]
    have nonempty : a.tokens ≠ [] := by simp [tokens]
    have inside := corresponds.grouping.push_inside (t := .operator '*' unitSuffixOrder) opened rfl
      a.isDividing
    exact corresponds.joined rfl nonempty (head?_joined nonempty _ _) rfl
      (inside.push_inside opened rfl a.isDividing)

theorem function (session : Session) (name : String) :
    Agree (fun a' b' => Corresponds a' (b'.divided false)) (a.function session name)
      (b.function session name) := by
  have defines : a.mayDefine name = b.mayDefine name := by
    rw [mayDefine, mayDefine, corresponds.first]
  have pushed {t : Token} (isFunction : t.kind = .function) :
      Corresponds (a.push t) ((b.push t).divided false) := by
    refine corresponds.forgets b.isDividing ?_
    cases t with
    | factorial | function | binaryFunction | multiFunction | conditional | call =>
      exact corresponds.push rfl rfl rfl
    | _ => cases isFunction
  unfold Scan.function
  rw [defines]
  cases found : functionToken? session name with
  | some t =>
    refine .ok (pushed ?_)
    unfold functionToken? at found
    repeat' split at found
    all_goals first
      | cases found; rfl
      | obtain ⟨i, -, rfl⟩ := Option.map_eq_some_iff.1 found; rfl
  | none =>
    dsimp only
    split
    · exact .ok (pushed rfl)
    · exact .error _

theorem pushUnit (value : Option Value) (name : String) :
    Corresponds (a.push (.unit value name)) ((b.push (.unit value name)).divided false) :=
  corresponds.forgets b.isDividing (corresponds.push (t := .unit value name) rfl rfl rfl)

omit corresponds in
theorem unitToken_ok {session : Session} {name : String} (made : unitToken session name = .ok t) :
    ∃ value, t = .unit value name := by
  unfold unitToken at made
  split at made <;> cases made
  exact ⟨_, rfl⟩

theorem signedUnit (session : Session) (name : String) (after : List Char) :
    Agree (fun a' b' => Corresponds a' (b'.divided false)) (a.signedUnit session name after)
      (b.signedUnit session name after) := by
  have empty : a.reversed.isEmpty = b.reversed.isEmpty := by
    rw [Bool.eq_iff_iff, List.isEmpty_iff, List.isEmpty_iff, corresponds.empty_iff]
  unfold Scan.signedUnit
  rw [empty]
  split
  · exact .ok (corresponds.pushUnit none name)
  · cases found : unitToken session name with
    | error e => exact .error e
    | ok t =>
      obtain ⟨value, rfl⟩ := unitToken_ok found
      exact .ok (corresponds.pushUnit value name)

theorem name (first : Char) (name : String) (after : List Char) :
    Parallel Eq (fun a' b' => Corresponds a' (b'.divided false)) (a.name first name after)
      (b.name first name after) := by
  have takes : a.takesUnit = b.takesUnit := by
    rw [Scan.takesUnit, Scan.takesUnit, corresponds.last]
  unfold Scan.name
  rw [← takes]
  split
  · exact .throw _
  · exact .readHere fun session => corresponds.function session name
  · split
    · next suffix =>
      refine .bind (R := fun t t' => t = t' ∧ ∃ value, t = .unit value name)
        (.readHere fun session => .self _ fun t made => ⟨rfl, unitToken_ok made⟩) ?_
      rintro t - ⟨rfl, value, rfl⟩
      exact .pure (corresponds.unitSuffix suffix value name)
    · split
      · refine .bind (.refl _) ?_
        rintro session - rfl
        refine .bind (.refl _) fun _ _ _ => .pure ?_
        exact corresponds.forgets b.isDividing
          (corresponds.push (t := .variable _ name) rfl rfl rfl)
      · exact .readHere fun session => corresponds.signedUnit session name after

/-- Two scans have read a lexeme. -/
def Both {n : Nat} (r r' : Scan × Shorter n) : Prop :=
  Corresponds r.1 (r'.1.divided false) ∧ r.2 = r'.2

theorem word (c : Char) (rest : List Char) :
    Parallel Eq Both (a.word c rest) (b.word c rest) := by
  unfold Scan.word
  split
  · exact .throw _
  · exact .bind (corresponds.name c _ _) fun a' b' related => .pure ⟨related, rfl⟩

theorem number (complex : Bool) (c : Char) (rest : List Char) :
    Agree Both (a.number complex c rest) (b.number complex c rest) := by
  have pushed (t : Token) (takes : t.takesUnit = true) :
      Corresponds (a.push t) ((b.push t).divided false) :=
    corresponds.forgets b.isDividing (corresponds.pushNumber takes)
  unfold Scan.number
  refine .bind (.self (R := Eq) _ fun _ _ => rfl) ?_
  rintro x - rfl
  split
  · exact .ok ⟨pushed _ rfl, rfl⟩
  · exact .ok ⟨pushed _ rfl, rfl⟩

theorem exclamation (allowed : Bool) (rest : List Char) :
    Agree Both (a.exclamation allowed rest) (b.exclamation allowed rest) := by
  unfold Scan.exclamation
  split
  · exact .bind (corresponds.operator allowed '≠') fun _ _ related => .ok ⟨related, rfl⟩
  · exact .bind corresponds.factorial fun _ _ related => .ok ⟨related, rfl⟩

theorem block {limit : Nat} (create : Method → Shorter limit → SessionM Nat) (rest : List Char)
    (within : rest.length < limit) :
    Parallel Eq Both (a.block limit create rest within) (b.block limit create rest within) := by
  unfold Scan.block
  split
  · exact .throw _
  · dsimp only
    split
    · exact .throw _
    · next method _ =>
      split
      · exact .throw _
      · next script after closed =>
        refine .bind (.refl _) ?_
        rintro index - rfl
        refine .pure ⟨?_, rfl⟩
        exact corresponds.forgets b.isDividing
          (corresponds.push (t := .block index method.name) rfl rfl rfl)

theorem input (rest : List Char) : Parallel Eq Both (a.input rest) (b.input rest) := by
  have pushed (value : Option Value) :
      Corresponds (a.push (.input value)) ((b.push (.input value)).divided false) :=
    corresponds.forgets b.isDividing (corresponds.pushNumber rfl)
  unfold Scan.input
  split
  · split
    · exact .throw _
    · refine .bind (.refl _) ?_
      rintro x - rfl
      exact .pure ⟨pushed _, rfl⟩
  · refine .bind (.refl _) ?_
    rintro session - rfl
    split
    · refine .bind (.refl _) fun _ _ _ => .bind (.refl _) ?_
      rintro x - rfl
      exact .pure ⟨pushed _, rfl⟩
    · exact .pure ⟨pushed _, rfl⟩

theorem lexeme {limit : Nat} (create : Method → Shorter limit → SessionM Nat) (allowed : Bool)
    (c : Char) (rest : List Char) (within : rest.length < limit) :
    Parallel Eq Both (a.lexeme limit create allowed c rest within)
      (b.lexeme limit create allowed c rest within) := by
  unfold Scan.lexeme
  split
  · refine .pure ⟨?_, rfl⟩
    rwa [corresponds.divided_eq]
  cases CharClass.of c with
  | digit => exact .readHere fun session => corresponds.number session.settings.complex c rest
  | letter => exact corresponds.word c rest
  | operator =>
    exact .bind (.result (corresponds.operator allowed _)) fun _ _ related => .pure ⟨related, rfl⟩
  | exclamation => exact .result (corresponds.exclamation allowed rest)
  | openBracket =>
    exact .pure ⟨corresponds.forgets false (corresponds.push (t := .openBracket) rfl rfl rfl), rfl⟩
  | closeBracket => exact .pure ⟨corresponds.endOperand rfl rfl, rfl⟩
  | separator => exact .pure ⟨corresponds.endOperand rfl rfl, rfl⟩
  | block => exact corresponds.block create rest within
  | input => exact corresponds.input rest
  | stop | unknown => exact .throw _

/-- At the end, brackets stand around all divisors. -/
theorem tokens_eq : a.closeDivisor.tokens = bracketDivisors false b.tokens := by
  cases corresponds.grouping with
  | outside closed _ grouped =>
    have all := grouped []
    rw [List.append_nil, Token.bracketDivisors_nil, List.append_nil] at all
    rw [all, closeDivisor, closed]
    rfl
  | @number front back t closed takes tokens read _ grouped =>
    have alone : t.isQuantity [] = false := Bool.and_false _
    have all := grouped []
    rw [Token.bracketDivisors_cons (by rw [alone, Bool.and_false]),
      Token.bracketDivisors_nil] at all
    rw [read, all, closeDivisor, closed]
    exact tokens
  | inside opened quantity goes tokens read grouped =>
    obtain ⟨same, none⟩ := Token.tailOfDivisor_eq goes
    have whole : a.closeDivisor.tokens = a.tokens ++ [.closeBracket] := by
      rw [closeDivisor, opened]
      exact a.tokens_push .closeBracket
    rw [whole, tokens, read, grouped, Token.bracketDivisors_quantity quantity, same, none,
      Token.bracketDivisors_nil]
    simp

end Corresponds

variable {limit : Nat} {create : Method → Shorter limit → SessionM Nat} {s s' : Session}

/-- Scans that begin together read the same, apart from the brackets around divisors. -/
theorem run_parallel {cs : List Char} (corresponds : Corresponds a b) (within : cs.length ≤ limit) :
    Parallel Eq (fun a' b' => a'.tokens = bracketDivisors false b'.tokens)
      (run limit create allowed cs within a) (runPlain limit create allowed cs within b) := by
  -- Strong induction: a lexeme may take more than one character.
  induction n : cs.length using Nat.strongRecOn generalizing cs a b with
  | ind n ih =>
    cases cs with
    | nil =>
      rw [run, runPlain]
      exact .pure corresponds.tokens_eq
    | cons c rest =>
      rw [run, runPlain]
      split
      · exact .pure corresponds.tokens_eq
      · refine .bind (corresponds.lexeme create allowed c rest within) ?_
        rintro ⟨a', after⟩ ⟨b', after'⟩ ⟨related, same⟩
        obtain rfl : after = after' := same
        exact ih after.1.length (n ▸ after.2) related _ rfl

/-- The brackets that are put into a statement stand around its divisors. When these open no
bracket, the brackets that were written keep their partners. -/
theorem run_divisors {cs : List Char} {within : cs.length ≤ limit} {scan : Scan}
    (ran : outcome (run limit create allowed cs within {}) s = (.ok scan, s')) :
    ∃ read, outcome (runPlain limit create allowed cs within {}) s = (.ok read, s') ∧
      scan.tokens = bracketDivisors false read.tokens ∧
      ((∀ divisor ∈ divisors false read.tokens, .openBracket ∉ divisor) →
        ∀ before inside behind,
          read.tokens = before ++ .openBracket :: (inside ++ .closeBracket :: behind) →
          Token.Balanced inside →
          scan.tokens = bracketDivisors false before ++ .openBracket ::
              (bracketDivisors false inside ++ .closeBracket :: bracketDivisors false behind) ∧
            Token.Balanced (bracketDivisors false inside)) := by
  have parallel : Parallel Eq _ (run limit create allowed cs within {}) _ := run_parallel .start within
  obtain ⟨same, agree⟩ := parallel s s rfl
  cases ended : outcome (runPlain limit create allowed cs within {}) s with
  | mk r s₁ =>
    rw [ran, ended] at same agree
    obtain rfl : s' = s₁ := same
    cases agree with
    | @ok _ read related =>
      refine ⟨read, rfl, related, fun none before inside behind split balanced => ?_⟩
      rw [split] at none
      obtain ⟨whole, within⟩ := Token.bracketDivisors_pair inside behind balanced none
      rw [related, split, whole]
      exact ⟨rfl, within⟩

/-- The sum in the exponent ends the divisor, and the bracket that was opened for the exponent is
closed behind the first number. -/
example : ((outcome (run 10 (fun _ _ => throw .blockNotOpened) false "6/2m^(1+1)".toList
    (by decide) {}) (.start {} ⟨1, 1⟩)).1.toOption.map fun scan =>
      scan.tokens.map Token.content) =
    some ["6", "/", "(", "2", "*", "m", "^", "(", "1", ")", "+", "1", ")"] := by
  decide +kernel

/-- The divisor in `6/2m^2+(1)` stands in brackets, and the brackets behind it stay partners. -/
theorem run_divisors_sum : ∃ scan read s' before inside behind,
    outcome (run 10 (fun _ _ => throw .blockNotOpened) false "6/2m^2+(1)".toList
      (by decide) {}) (.start {} ⟨1, 1⟩) = (.ok scan, s') ∧
    outcome (runPlain 10 (fun _ _ => throw .blockNotOpened) false "6/2m^2+(1)".toList
      (by decide) {}) (.start {} ⟨1, 1⟩) = (.ok read, s') ∧
    read.tokens.map Token.content = ["6", "/", "2", "*", "m", "^", "2", "+", "(", "1", ")"] ∧
    scan.tokens.map Token.content =
      ["6", "/", "(", "2", "*", "m", "^", "2", ")", "+", "(", "1", ")"] ∧
    scan.tokens = bracketDivisors false before ++ .openBracket ::
      (bracketDivisors false inside ++ .closeBracket :: bracketDivisors false behind) := by
  have scanned : ((outcome (run 10 (fun _ _ => throw .blockNotOpened) false "6/2m^2+(1)".toList
      (by decide) {}) (.start {} ⟨1, 1⟩)).1.toOption.map fun scan =>
        scan.tokens.map Token.content) = some
      ["6", "/", "(", "2", "*", "m", "^", "2", ")", "+", "(", "1", ")"] := by
    decide +kernel
  have plain : ((outcome (runPlain 10 (fun _ _ => throw .blockNotOpened) false "6/2m^2+(1)".toList
      (by decide) {}) (.start {} ⟨1, 1⟩)).1.toOption.map fun read =>
        (read.tokens.map Token.content, read.tokens.map Token.kind,
          (divisors false read.tokens).all fun ts => ts.all fun t => t.kind != .openBracket)) =
      some (["6", "/", "2", "*", "m", "^", "2", "+", "(", "1", ")"],
        [.value, .operator, .value, .operator, .value, .operator, .value, .operator, .openBracket,
          .value, .closeBracket], true) := by
    decide +kernel
  obtain ⟨scan, s', ran, shown⟩ := exists_of_toOption scanned
  obtain ⟨read, s₁, ended, seen⟩ := exists_of_toOption plain
  obtain ⟨content, seen⟩ := Prod.mk.inj seen
  obtain ⟨kinds, none⟩ := Prod.mk.inj seen
  obtain ⟨read', ended', -, partners⟩ := run_divisors ran
  obtain ⟨rfl, rfl⟩ : read = read' ∧ s₁ = s' := by
    rw [ended] at ended'
    exact ⟨Except.ok.inj (Prod.mk.inj ended').1, (Prod.mk.inj ended').2⟩
  -- The brackets are found by the kinds of the tokens.
  obtain ⟨before, behind, split, -, kinds⟩ := List.map_eq_append_iff.1
    (show read.tokens.map Token.kind = [.value, .operator, .value, .operator, .value, .operator,
      .value, .operator] ++ [.openBracket, .value, .closeBracket] from kinds)
  obtain ⟨opening, behind, rfl, opens, kinds⟩ := List.map_eq_cons_iff.1 kinds
  obtain ⟨number, behind, rfl, value, kinds⟩ := List.map_eq_cons_iff.1 kinds
  obtain ⟨closing, behind, rfl, closes, empty⟩ := List.map_eq_cons_iff.1 kinds
  obtain rfl := Token.eq_openBracket_of_kind opens
  obtain rfl := Token.eq_closeBracket_of_kind closes
  have balanced : Token.Balanced [number] := by
    refine .token ?_ ?_ .nil <;> rintro rfl <;> cases value
  have openNone : ∀ divisor ∈ divisors false read.tokens, .openBracket ∉ divisor := by
    intro divisor within opens
    have all := List.all_eq_true.1 (List.all_eq_true.1 none divisor within) _ opens
    cases all
  exact ⟨scan, read, s₁, before, [number], behind, ran, ended, content, shown,
    (partners openNone before [number] behind split balanced).1⟩

end Scan

end UnitCalc
