/-
# Arguments of calls

A list is well applied when every name of a function has its bracket, every such bracket holds
as many arguments as the function takes, and no other bracket holds a separator. The check
counts the separators of a whole statement, so it cannot tell this for every list: a surplus in
one bracket makes up for what another one lacks, and a call of any number of arguments takes
over what is left inside of its bracket.

## Main definitions

* `Token.brackets` are the brackets of a list with the calls that they belong to.
* `Token.WellApplied` and its inductive form `Token.Applied`.
* `Token.Separated` rules out what the check misses.

## Main results

* `Layout.applied`: lists that lack and exceed nothing are well applied.
* `Applied.wellApplied`: the two forms agree.
-/

import UnitCalc.Postfix.Infix
import UnitCalc.Proofs.Token.Legality

namespace UnitCalc

namespace Token

/-- A bracket of a list: the name of the function before it, and the tokens inside. -/
structure Bracket where
  call : Option Token
  inside : List Token

/-- The tokens up to the bracket that closes the innermost one of `inner + 1`. -/
def enclosed (inner : Nat) : List Token → List Token
  | [] => []
  | .openBracket :: rest => .openBracket :: enclosed (inner + 1) rest
  | .closeBracket :: rest => match inner with
    | 0 => []
    | outer + 1 => .closeBracket :: enclosed outer rest
  | t :: rest => t :: enclosed inner rest

/-- All brackets of a list behind a token. -/
def brackets (previous : Option Token) : List Token → List Bracket
  | [] => []
  | .openBracket :: rest =>
    ⟨previous.filter isCall, enclosed 0 rest⟩ :: brackets (some .openBracket) rest
  | t :: rest => brackets (some t) rest

/-- The separators of a list that stand in none of its brackets, nor in `depth` more. -/
def separatorsAt (depth : Nat) : List Token → Nat
  | [] => 0
  | .openBracket :: rest => separatorsAt (depth + 1) rest
  | .closeBracket :: rest => separatorsAt (depth - 1) rest
  | .separator :: rest => (if depth = 0 then 1 else 0) + separatorsAt depth rest
  | _ :: rest => separatorsAt depth rest

namespace Bracket

/-- The number of arguments in a bracket. -/
def arguments (b : Bracket) : Nat :=
  separatorsAt 0 b.inside + 1

/-- The number of arguments that belong into a bracket. -/
def expected (b : Bracket) : Nat :=
  b.call.elim 1 Token.arity

/-- The bracket of a function of any number of arguments. -/
def isManyCall (b : Bracket) : Bool :=
  b.call.any Token.isManyCall

end Bracket

/-- Every call has its bracket, and every bracket holds the arguments that belong into it. -/
structure WellApplied (ts : List Token) : Prop where
  opens : CallsOpen ts
  arguments : ∀ b ∈ brackets none ts, b.arguments = b.expected

/-- What the check takes for granted: the list begins as the inside of a bracket does, calls
have their brackets, no bracket holds too many arguments, and none inside of a call of any
number of arguments holds too few. -/
structure Separated (ts : List Token) : Prop where
  begins : ts.head?.any (fun t => t.mayFollow (some .openBracket)) = true
  opens : CallsOpen ts
  outside : separatorsAt 0 ts = 0
  noSurplus : ∀ b ∈ brackets none ts, b.isManyCall = false → b.arguments ≤ b.expected
  noHidden : ∀ b ∈ brackets none ts, b.isManyCall = true →
    ∀ inner ∈ brackets none b.inside, inner.isManyCall = false → inner.expected ≤ inner.arguments

/-- The layout of a well applied list, with the separators outside of its brackets. -/
inductive Applied : Expected → Nat → List Token → Prop
  | done : Applied .continuation 0 []
  | operand {t : Token} {n : Nat} {ts : List Token} (value : t.kind = .value)
      (rest : Applied .continuation n ts) : Applied .operand n (t :: ts)
  | negation {order : Int} {n : Nat} {ts : List Token} (rest : Applied .operand n ts) :
      Applied .operand n (.negation order :: ts)
  | bracket {n : Nat} {inside ts : List Token} (body : Applied .operand 0 inside)
      (rest : Applied .continuation n ts) :
      Applied .operand n (.openBracket :: (inside ++ .closeBracket :: ts))
  | call {t : Token} {n m : Nat} {inside ts : List Token} (isCall : t.isCall = true)
      (takes : t.arity = m + 1) (body : Applied .operand m inside)
      (rest : Applied .continuation n ts) :
      Applied .operand n (t :: .openBracket :: (inside ++ .closeBracket :: ts))
  | factorial {n : Nat} {ts : List Token} (rest : Applied .continuation n ts) :
      Applied .continuation n (.factorial :: ts)
  | operator {symbol : Char} {order : Int} {n : Nat} {ts : List Token}
      (rest : Applied .operand n ts) : Applied .continuation n (.operator symbol order :: ts)
  | separator {n : Nat} {ts : List Token} (rest : Applied .operand n ts) :
      Applied .continuation (n + 1) (.separator :: ts)

variable {next : Expected} {n m depth : Nat} {e i : Int} {t : Token}
  {ts us inside rest : List Token} {previous : Option Token}

theorem separatorsAt_append {final : Nat} (reached : depthAfter depth ts = some final) :
    separatorsAt depth (ts ++ rest) = separatorsAt depth ts + separatorsAt final rest := by
  induction ts generalizing depth with
  | nil =>
    cases reached
    simp [separatorsAt]
  | cons t ts ih =>
    cases t with
    | closeBracket =>
      cases depth with
      | zero => cases reached
      | succ outer => exact ih reached
    | separator =>
      rw [List.cons_append, separatorsAt, separatorsAt, ih reached, Nat.add_assoc]
    | _ => exact ih reached

theorem enclosed_append {inner : Nat} (balanced : depthAfter inner inside = some 0) :
    enclosed inner (inside ++ .closeBracket :: rest) = inside := by
  induction inside generalizing inner with
  | nil =>
    cases balanced
    rfl
  | cons t inside ih =>
    cases t with
    | closeBracket =>
      cases inner with
      | zero => cases balanced
      | succ outer => exact congrArg _ (ih balanced)
    | _ => exact congrArg _ (ih balanced)

/-- Brackets behind a token that is no call stand for themselves. -/
theorem brackets_of_plain (plain : previous.filter isCall = none) :
    brackets previous ts = brackets none ts := by
  cases ts with
  | nil => rfl
  | cons t ts => cases t <;> simp [brackets, plain]

theorem brackets_opened : brackets (some .openBracket) ts = brackets none ts :=
  brackets_of_plain rfl

theorem brackets_closed : brackets (some .closeBracket) ts = brackets none ts :=
  brackets_of_plain rfl

theorem CallsOpen.bracket (opens : CallsOpen inside) (opens' : CallsOpen rest) :
    CallsOpen (inside ++ .closeBracket :: rest) := by
  induction inside with
  | nil => exact ⟨by simp [isCall], opens'⟩
  | cons t inside ih =>
    refine ⟨fun call => ?_, ih opens.2⟩
    have first := opens.1 call
    cases inside with
    | nil => simp at first
    | cons u inside => simpa using first

/-- A token other than a bracket and a separator stands for itself. -/
theorem separatorsAt_cons (other : t.kind = .value ∨ t.isCall = true) :
    separatorsAt depth (t :: rest) = separatorsAt depth rest := by
  cases t <;> first | rfl | simp [kind, isCall] at other

/-- A token that is neither a bracket nor a call does not change the brackets. -/
theorem brackets_skip (bracket : t.isBracket = false) (call : t.isCall = false) :
    brackets previous (t :: rest) = brackets none rest := by
  have plain : (some t).filter isCall = none := by simp [Option.filter, call]
  rw [← brackets_of_plain plain]
  cases t <;> first | rfl | cases bracket

theorem brackets_cons (other : t.kind = .value ∨ t.isCall = true) :
    brackets previous (t :: rest) = brackets (some t) rest := by
  cases t <;> first | rfl | simp [kind, isCall] at other

theorem isCall_of_separators {k : Nat} (needs : t.separators? = some k) : t.isCall = true := by
  cases t <;> first | rfl | cases needs

theorem plain_of_value (value : t.kind = .value) : t.isBracket = false ∧ t.isCall = false := by
  cases t <;> first | exact ⟨rfl, rfl⟩ | cases value

private theorem nested_inside {b : Bracket} {inside behind : List Bracket}
    (ihInside : ∀ c ∈ inside, ∀ inner ∈ brackets none c.inside, inner ∈ inside)
    (ihBehind : ∀ c ∈ behind, ∀ inner ∈ brackets none c.inside, inner ∈ behind)
    (own : brackets none b.inside = inside) :
    ∀ c ∈ b :: (inside ++ behind), ∀ inner ∈ brackets none c.inside,
      inner ∈ b :: (inside ++ behind) := by
  intro c within inner nested
  rcases List.mem_cons.1 within with rfl | within
  · rw [own] at nested
    simp [nested]
  · rcases List.mem_append.1 within with first | second
    · simp [ihInside c first inner nested]
    · simp [ihBehind c second inner nested]

namespace Layout

/-- The separators outside of the brackets are counted in the layout. -/
theorem separatorsAt_eq (layout : Layout next n e ts us) (depth : Nat) :
    separatorsAt depth ts = if depth = 0 then n else 0 := by
  induction layout generalizing depth with
  | done => simp [separatorsAt]
  | operand value _ ih => rw [separatorsAt_cons (.inl value), ih]
  | negation _ ih | factorial _ ih | operator _ ih => exact ih depth
  | separator _ ih =>
    rw [separatorsAt, ih]
    split <;> omega
  | bracket body _ ihBody ihRest =>
    rw [separatorsAt, separatorsAt_append (body.depthAfter_eq _), ihBody, separatorsAt, ihRest]
    simp
  | call needs body _ ihBody ihRest =>
    rw [separatorsAt_cons (.inr (isCall_of_separators needs)), separatorsAt,
      separatorsAt_append (body.depthAfter_eq _), ihBody, separatorsAt, ihRest]
    simp
  | manyCall body _ ihBody ihRest =>
    rw [separatorsAt_cons (.inr rfl), separatorsAt, separatorsAt_append (body.depthAfter_eq _),
      ihBody, separatorsAt, ihRest]
    simp

theorem callsOpen (layout : Layout next n e ts us) : CallsOpen ts := by
  induction layout with
  | done => trivial
  | operand value _ ih =>
    exact ⟨by simp [(plain_of_value value).2], ih⟩
  | negation _ ih | factorial _ ih | operator _ ih | separator _ ih =>
    exact ⟨by simp [isCall], ih⟩
  | bracket _ _ ihBody ihRest => exact ⟨by simp [isCall], ihBody.bracket ihRest⟩
  | call _ _ _ ihBody ihRest | manyCall _ _ ihBody ihRest =>
    exact ⟨fun _ => rfl, by simp [isCall], ihBody.bracket ihRest⟩

/-- The brackets of a list with a layout, in front of a closing bracket. -/
theorem brackets_append (layout : Layout next n e ts us) (previous : Option Token)
    (rest : List Token) :
    brackets previous (ts ++ .closeBracket :: rest) =
      brackets previous ts ++ brackets none rest := by
  induction layout generalizing previous rest with
  | done => exact brackets_closed
  | operand value _ ih =>
    rw [List.cons_append, brackets_cons (.inl value), brackets_cons (.inl value), ih]
  | negation _ ih | factorial _ ih | operator _ ih | separator _ ih => exact ih _ rest
  | bracket body _ ihBody ihRest =>
    simp only [List.cons_append, List.append_assoc, brackets, enclosed_append
      (body.depthAfter_eq 0), ihBody, brackets_opened, ihRest]
  | call needs body _ ihBody ihRest =>
    simp only [List.cons_append, List.append_assoc,
      brackets_cons (.inr (isCall_of_separators needs)), brackets,
      enclosed_append (body.depthAfter_eq 0), ihBody, ihRest]
  | manyCall body _ ihBody ihRest =>
    simp only [List.cons_append, List.append_assoc, brackets,
      enclosed_append (body.depthAfter_eq 0), ihBody, ihRest]

/-- The brackets behind an opening bracket. -/
theorem brackets_bracket (body : Layout next n e inside us) :
    brackets previous (.openBracket :: (inside ++ .closeBracket :: rest)) =
      ⟨previous.filter isCall, inside⟩ :: (brackets none inside ++ brackets none rest) := by
  rw [brackets, enclosed_append (body.depthAfter_eq 0), body.brackets_append, brackets_opened]

theorem brackets_call (body : Layout next n e inside us) (call : t.isCall = true) :
    brackets previous (t :: .openBracket :: (inside ++ .closeBracket :: rest)) =
      ⟨some t, inside⟩ :: (brackets none inside ++ brackets none rest) := by
  rw [brackets_cons (.inr call), body.brackets_bracket, Option.filter_some, if_pos call]

/-- The number of arguments in a bracket with a layout. -/
theorem arguments_eq (body : Layout next n e inside us) (call : Option Token) :
    (Bracket.mk call inside).arguments = n + 1 :=
  congrArg (· + 1) (body.separatorsAt_eq 0)

/-- A property of all brackets of a list that begins with a bracket. -/
theorem forall_bracket {P : Bracket → Prop} (body : Layout next n e inside us) :
    (∀ b ∈ brackets none (.openBracket :: (inside ++ .closeBracket :: rest)), P b) ↔
      P ⟨none, inside⟩ ∧ (∀ b ∈ brackets none inside, P b) ∧ ∀ b ∈ brackets none rest, P b := by
  rw [body.brackets_bracket, List.forall_mem_cons, List.forall_mem_append]
  rfl

/-- A property of all brackets of a list that begins with a call. -/
theorem forall_call {P : Bracket → Prop} (body : Layout next n e inside us)
    (call : t.isCall = true) :
    (∀ b ∈ brackets none (t :: .openBracket :: (inside ++ .closeBracket :: rest)), P b) ↔
      P ⟨some t, inside⟩ ∧ (∀ b ∈ brackets none inside, P b) ∧ ∀ b ∈ brackets none rest, P b := by
  rw [body.brackets_call call, List.forall_mem_cons, List.forall_mem_append]

theorem isManyCall_of_separators {k : Nat} (needs : t.separators? = some k) :
    t.isManyCall = false ∧ k = t.arity - 1 := by
  cases t <;> cases needs <;> exact ⟨rfl, rfl⟩

/-- Where no bracket holds too few arguments, none are in excess on balance. -/
theorem excess_nonneg (layout : Layout next n e ts us)
    (enough : ∀ b ∈ brackets none us, b.isManyCall = false → b.expected ≤ b.arguments) :
    0 ≤ e := by
  -- Calls of any number of arguments hide the excess inside of them, all other brackets add theirs.
  induction layout with
  | done => exact Int.le_refl 0
  | operand value _ ih =>
    rw [brackets_skip (plain_of_value value).1 (plain_of_value value).2] at enough
    exact ih enough
  | negation _ ih | factorial _ ih | operator _ ih | separator _ ih =>
    rw [brackets_skip rfl rfl] at enough
    exact ih enough
  | bracket body _ ihBody ihRest =>
    obtain ⟨-, inside, behind⟩ := (forall_bracket body.counted).1 enough
    have := ihBody inside
    have := ihRest behind
    omega
  | call needs body _ ihBody ihRest =>
    obtain ⟨own, inside, behind⟩ :=
      (forall_call body.counted (isCall_of_separators needs)).1 enough
    obtain ⟨fixed, counts⟩ := isManyCall_of_separators needs
    have counted := own fixed
    rw [body.counted.arguments_eq] at counted
    simp only [Bracket.expected, Option.elim_some] at counted
    have := ihBody inside
    have := ihRest behind
    omega
  | manyCall body _ _ ihRest =>
    exact ihRest ((forall_call body.counted rfl).1 enough).2.2

/-- Where no bracket holds too many arguments, and none is hidden in a call of any number of
arguments, a list without an excess is well applied. -/
theorem applied (layout : Layout next n e ts us)
    (noSurplus : ∀ b ∈ brackets none us, b.isManyCall = false → b.arguments ≤ b.expected)
    (noHidden : ∀ b ∈ brackets none us, b.isManyCall = true →
      ∀ inner ∈ brackets none b.inside, inner.isManyCall = false →
        inner.expected ≤ inner.arguments) :
    e ≤ 0 ∧ (e = 0 → Applied next n us) := by
  -- Without a surplus anywhere the excess is nowhere positive, so if it is zero on the whole it is
  -- zero in each bracket.
  induction layout with
  | done => exact ⟨Int.le_refl 0, fun _ => .done⟩
  | operand value _ ih =>
    rw [brackets_skip (plain_of_value value).1 (plain_of_value value).2] at noSurplus noHidden
    obtain ⟨le, applied⟩ := ih noSurplus noHidden
    exact ⟨le, fun none => .operand value (applied none)⟩
  | negation _ ih =>
    rw [brackets_skip rfl rfl] at noSurplus noHidden
    obtain ⟨le, applied⟩ := ih noSurplus noHidden
    exact ⟨le, fun none => .negation (applied none)⟩
  | factorial _ ih =>
    rw [brackets_skip rfl rfl] at noSurplus noHidden
    obtain ⟨le, applied⟩ := ih noSurplus noHidden
    exact ⟨le, fun none => .factorial (applied none)⟩
  | operator _ ih =>
    rw [brackets_skip rfl rfl] at noSurplus noHidden
    obtain ⟨le, applied⟩ := ih noSurplus noHidden
    exact ⟨le, fun none => .operator (applied none)⟩
  | separator _ ih =>
    rw [brackets_skip rfl rfl] at noSurplus noHidden
    obtain ⟨le, applied⟩ := ih noSurplus noHidden
    exact ⟨le, fun none => .separator (applied none)⟩
  | @bracket n m e i _ _ _ _ body _ ihBody ihRest =>
    obtain ⟨own, inside, behind⟩ := (forall_bracket body.counted).1 noSurplus
    obtain ⟨-, inside', behind'⟩ := (forall_bracket body.counted).1 noHidden
    obtain ⟨le, applied⟩ := ihBody inside inside'
    obtain ⟨le', applied'⟩ := ihRest behind behind'
    have counted := own rfl
    rw [body.counted.arguments_eq] at counted
    obtain rfl : m = 0 := by
      simp only [Bracket.expected, Option.elim_none] at counted
      omega
    refine ⟨by omega, fun none => .bracket (applied (by omega)) (applied' (by omega))⟩
  | @call t n m k e i _ _ _ _ needs body _ ihBody ihRest =>
    have isCall := isCall_of_separators needs
    obtain ⟨own, inside, behind⟩ := (forall_call body.counted isCall).1 noSurplus
    obtain ⟨-, inside', behind'⟩ := (forall_call body.counted isCall).1 noHidden
    obtain ⟨le, applied⟩ := ihBody inside inside'
    obtain ⟨le', applied'⟩ := ihRest behind behind'
    obtain ⟨fixed, counts⟩ := isManyCall_of_separators needs
    have counted := own fixed
    rw [body.counted.arguments_eq] at counted
    simp only [Bracket.expected, Option.elim_some] at counted
    exact ⟨by omega, fun none =>
      .call isCall (by omega) (applied (by omega)) (applied' (by omega))⟩
  | @manyCall name count n m e i _ _ _ _ body _ ihBody ihRest =>
    obtain ⟨-, inside, behind⟩ := (forall_call body.counted rfl).1 noSurplus
    obtain ⟨own, inside', behind'⟩ := (forall_call body.counted rfl).1 noHidden
    obtain ⟨le, applied⟩ := ihBody inside inside'
    obtain ⟨le', applied'⟩ := ihRest behind behind'
    -- The excess in a call of any number of arguments is lost, but none may be hidden there.
    have balanced : i = 0 := Int.le_antisymm le (body.excess_nonneg (own rfl))
    subst balanced
    exact ⟨le', fun none =>
      .call rfl (Legality.storedCount_eq m) (applied rfl) (applied' none)⟩

/-- The brackets inside of a bracket are brackets of the list. -/
theorem brackets_inside (layout : Layout next n e ts us) :
    ∀ b ∈ brackets none us, ∀ inner ∈ brackets none b.inside, inner ∈ brackets none us := by
  induction layout with
  | done => simp [brackets]
  | operand value _ ih =>
    rw [brackets_skip (plain_of_value value).1 (plain_of_value value).2]
    exact ih
  | negation _ ih | factorial _ ih | operator _ ih | separator _ ih =>
    rw [brackets_skip rfl rfl]
    exact ih
  | bracket body _ ihBody ihRest =>
    rw [body.counted.brackets_bracket]
    exact nested_inside ihBody ihRest rfl
  | call needs body _ ihBody ihRest =>
    rw [body.counted.brackets_call (isCall_of_separators needs)]
    exact nested_inside ihBody ihRest rfl
  | manyCall body _ ihBody ihRest =>
    rw [body.counted.brackets_call rfl]
    exact nested_inside ihBody ihRest rfl

end Layout

namespace Applied

/-- A well applied list has a layout without an excess. -/
theorem layout (applied : Applied next n ts) : Layout next n 0 ts ts := by
  induction applied with
  | done => exact .done
  | operand value _ ih => exact .operand value ih
  | negation _ ih => exact .negation ih
  | bracket _ _ ihBody ihRest => exact .bracket ihBody ihRest
  | @call t n m _ _ isCall takes _ _ ihBody ihRest =>
    by_cases many : t.isManyCall = true
    · obtain ⟨name, count, rfl⟩ : ∃ name count, t = .multiFunction name count := by
        cases t <;> simp [isManyCall] at many ⊢
      have whole := @Layout.manyCall name count _ _ _ _ _ _ _ _ ihBody ihRest
      rwa [Legality.storedCount_eq, ← takes] at whole
    · have needs : t.separators? = some m := by
        cases t <;> simp_all [separators?, arity, Token.isCall, isManyCall]
      simpa using Layout.call needs ihBody ihRest
  | factorial _ ih => exact .factorial ih
  | operator _ ih => exact .operator ih
  | separator _ ih => exact .separator ih

/-- Every bracket of a well applied list holds the arguments that belong into it. -/
theorem arguments (applied : Applied next n ts) :
    ∀ b ∈ brackets none ts, b.arguments = b.expected := by
  induction applied with
  | done => simp [brackets]
  | operand value _ ih =>
    rw [brackets_skip (plain_of_value value).1 (plain_of_value value).2]
    exact ih
  | negation _ ih | factorial _ ih | operator _ ih | separator _ ih =>
    rw [brackets_skip rfl rfl]
    exact ih
  | bracket body _ ihBody ihRest =>
    exact (body.layout.forall_bracket).2 ⟨body.layout.arguments_eq none, ihBody, ihRest⟩
  | @call t n m _ _ isCall takes body _ ihBody ihRest =>
    refine (body.layout.forall_call isCall).2 ⟨?_, ihBody, ihRest⟩
    rw [body.layout.arguments_eq, Bracket.expected, Option.elim_some, takes]

theorem wellApplied (applied : Applied next n ts) : WellApplied ts :=
  ⟨applied.layout.callsOpen, applied.arguments⟩

end Applied

namespace WellApplied

/-- A well applied list with a layout has no excess. -/
theorem applied (wellApplied : WellApplied us) (layout : Layout next n e ts us) :
    e = 0 ∧ Applied next n us := by
  have enough : ∀ b ∈ brackets none us, b.isManyCall = false → b.expected ≤ b.arguments :=
    fun b within _ => Nat.le_of_eq (wellApplied.arguments b within).symm
  obtain ⟨le, applied⟩ := layout.applied
    (fun b within _ => Nat.le_of_eq (wellApplied.arguments b within))
    fun b within _ inner nested => enough inner (layout.brackets_inside b within inner nested)
  have balanced := Int.le_antisymm le (layout.excess_nonneg enough)
  exact ⟨balanced, applied balanced⟩

end WellApplied

end Token

end UnitCalc
