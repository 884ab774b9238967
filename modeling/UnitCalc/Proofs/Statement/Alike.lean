/-
# Texts read alike

What a text is read into depends on the vocabulary of a session: its settings, its units, and the
names and arities of its functions. Two sessions with the same vocabulary read the same characters
into the same tokens, apart from cells, also when one of them has read the header of a definition
before. Only a name in front of an equality sign is another matter at the very beginning, where it
counts as a unit that is about to be defined.

## Main definitions

* `Session.SameVocabulary`: two sessions know the same units and functions.
* `Scan.Alike`: two scans have read the same, one of them behind more tokens.

## Main results

* `Scan.run_alike`: alike scans stay alike.
-/

import UnitCalc.Proofs.Session.Wiring
import UnitCalc.Proofs.Statement.Scan
import UnitCalc.Proofs.Token.Placeless

namespace UnitCalc

open SessionM
open Token (withoutCell)

namespace Session

variable {s s' s'' : Session}

/-- Two sessions know the same units and functions. -/
structure SameVocabulary (s s' : Session) : Prop where
  settings : s'.settings = s.settings
  units : s'.units = s.units
  functionNames : s'.functionNames = s.functionNames
  arities : ∀ i : Nat,
    s'.functions[i]?.map UserFunction.arity = s.functions[i]?.map UserFunction.arity

namespace SameVocabulary

theorem refl (s : Session) : s.SameVocabulary s :=
  ⟨rfl, rfl, rfl, fun _ => rfl⟩

theorem symm (same : s.SameVocabulary s') : s'.SameVocabulary s :=
  ⟨same.settings.symm, same.units.symm, same.functionNames.symm, fun i => (same.arities i).symm⟩

theorem trans (first : s.SameVocabulary s') (second : s'.SameVocabulary s'') :
    s.SameVocabulary s'' :=
  ⟨second.settings.trans first.settings, second.units.trans first.units,
    second.functionNames.trans first.functionNames,
    fun i => (second.arities i).trans (first.arities i)⟩

theorem unit?_eq (same : s.SameVocabulary s') : s'.unit? = s.unit? := by
  funext name
  rw [unit?, unit?, same.units]

theorem functionToken?_eq (same : s.SameVocabulary s') (name : String) :
    Scan.functionToken? s' name = Scan.functionToken? s name := by
  have arity : ∀ i : Nat, s'.functions[i]?.elim 0 (fun f => f.parameters.length) =
      s.functions[i]?.elim 0 fun f => f.parameters.length :=
    fun i => elim_eq (same.arities i) fun _ _ => id
  unfold Scan.functionToken?
  simp only [same.functionNames, arity]

theorem unitToken_eq (same : s.SameVocabulary s') (name : String) :
    Scan.unitToken s' name = Scan.unitToken s name := by
  rw [Scan.unitToken, Scan.unitToken, same.unit?_eq]

end SameVocabulary

/-- Reading adds no word to the vocabulary. -/
theorem reading_sameVocabulary :
    Reading SameVocabulary (fun _ => True) (fun _ _ => True) where
  refl := .refl
  trans := .trans
  keeps _ _ := trivial
  mono _ _ := trivial
  free _ _ := trivial
  call _ _ := trivial
  forward _ _ := trivial
  cell {s} name _ := by
    obtain ⟨ext, -⟩ := s.extends_cellOf name
    refine ⟨⟨ext.settings, ext.units, ext.functionNames, fun i => ?_⟩, trivial⟩
    rw [ext.functions]

end Session

namespace Scan

variable {before : List Token} {a b a' b' : Scan} {s s' : Session} {t u : Token} {allowed : Bool}
  {c : Char} {rest after : List Char}

/-- Two scans have read the same tokens apart from cells, and the second one more tokens before
them. The first one has read no assignment. -/
structure Alike (before : List Token) (a b : Scan) : Prop where
  reversed : b.reversed.map withoutCell = a.reversed.map withoutCell ++ before
  isDividing : b.isDividing = a.isDividing
  inDivisor : b.inDivisor = a.inDivisor
  ordinary : ∀ t ∈ a.reversed, t.isAssignment = false

/-- A unit that is about to be defined was read. -/
def HasNewUnit (a : Scan) : Prop :=
  ∃ t ∈ a.reversed, t.isNewUnit = true

/-- What was read is at most one token. -/
def ending (t : Option Token) : Scan :=
  { reversed := t.toList }

/-- Only the last token tells whether an operand is expected. -/
theorem expectsOperand_ending (a : Scan) : (ending a.last?).expectsOperand = a.expectsOperand := by
  unfold expectsOperand last? ending
  rw [Option.head?_toList]

theorem takesUnit_ending (a : Scan) : (ending a.last?).takesUnit = a.takesUnit := by
  unfold takesUnit last? ending
  rw [Option.head?_toList]

namespace Alike

variable (alike : Alike before a b)

include alike

theorem push (same : t.withoutCell = u.withoutCell) (ordinary : t.isAssignment = false) :
    Alike before (a.push t) (b.push u) where
  reversed := by simp [Scan.push, alike.reversed, same]
  isDividing := alike.isDividing
  inDivisor := alike.inDivisor
  ordinary := List.forall_mem_cons.2 ⟨ordinary, alike.ordinary⟩

theorem divide (isDividing : Bool) : Alike before { a with isDividing } { b with isDividing } :=
  ⟨alike.reversed, rfl, alike.inDivisor, alike.ordinary⟩

theorem closeDivisor : Alike before a.closeDivisor b.closeDivisor := by
  unfold Scan.closeDivisor
  rw [alike.inDivisor]
  split
  · have pushed := alike.push (t := .closeBracket) rfl rfl
    exact ⟨pushed.reversed, pushed.isDividing, rfl, pushed.ordinary⟩
  · exact alike

/-- The last tokens differ in cells, or the first scan begins behind an assignment. -/
theorem last?_eq {α : Type} {f : Option Token → α}
    (front : ∀ t ∈ before.head?, t.isAssignment = true)
    (names : ∀ cell cell' name, f (some (.variable cell name)) = f (some (.variable cell' name)))
    (assigned : ∀ order, f (some (.operator '=' order)) = f none) : f b.last? = f a.last? := by
  have reversed := alike.reversed
  unfold last?
  -- If nothing was read yet, the second scan has an assignment as its last token, behind which
  -- the same may follow as at the beginning.
  cases first : a.reversed with
  | nil =>
    rw [first] at reversed
    cases second : b.reversed with
    | nil => rfl
    | cons u us =>
      rw [second] at reversed
      have assigns := front u.withoutCell (by rw [← show _ = before from reversed]; rfl)
      rw [Token.isAssignment_withoutCell] at assigns
      cases u with
      | operator symbol order =>
        obtain rfl : symbol = '=' := beq_iff_eq.1 assigns
        exact assigned order
      | _ => cases assigns
  | cons t ts =>
    rw [first] at reversed
    cases second : b.reversed with
    | nil =>
      rw [second] at reversed
      cases reversed
    | cons u us =>
      rw [second] at reversed
      exact Token.congr_withoutCell (f := fun t => f (some t)) names (List.cons.inj reversed).1

theorem expectsOperand_eq (front : ∀ t ∈ before.head?, t.isAssignment = true) :
    b.expectsOperand = a.expectsOperand := by
  rw [← expectsOperand_ending a, ← expectsOperand_ending b]
  exact alike.last?_eq (f := fun t => (ending t).expectsOperand) front (fun _ _ _ => rfl)
    fun _ => rfl

theorem takesUnit_eq (front : ∀ t ∈ before.head?, t.isAssignment = true) :
    b.takesUnit = a.takesUnit := by
  rw [← takesUnit_ending a, ← takesUnit_ending b]
  exact alike.last?_eq (f := fun t => (ending t).takesUnit) front (fun _ _ _ => rfl) fun _ => rfl

theorem operator {symbol : Char} (front : ∀ t ∈ before.head?, t.isAssignment = true)
    (made : a.operator false symbol = .ok a') (made' : b.operator allowed symbol = .ok b') :
    Alike before a' b' := by
  unfold Scan.operator at made made'
  rw [alike.expectsOperand_eq front] at made'
  split at made
  · next sign =>
    rw [if_pos sign] at made'
    cases made
    cases made'
    exact alike.push rfl rfl
  · next sign =>
    rw [if_neg sign] at made'
    -- A power stays in the divisor that was opened before, any other operator closes it.
    have closed : Alike before (if symbol == '^' then a else a.closeDivisor)
        (if symbol == '^' then b else b.closeDivisor) := by
      split
      · exact alike
      · exact alike.closeDivisor
    generalize (if symbol == '^' then a else a.closeDivisor) = open_ at closed made
    generalize (if symbol == '^' then b else b.closeDivisor) = open' at closed made'
    simp only at made made'
    split at made
    · -- the first scan may not assign
      cases made
    · next other =>
      rw [if_neg other] at made'
      cases made
      cases made'
      exact (closed.divide _).push (t := .ofSymbol symbol) rfl (Bool.not_eq_true _ ▸ other)

theorem factorial (made : a.factorial = .ok a') (made' : b.factorial = .ok b') :
    Alike before a' b' := by
  unfold Scan.factorial at made made'
  split at made
  case h_4 => cases made
  all_goals
    split at made'
    case h_4 => cases made'
    all_goals
      cases made
      cases made'
      exact alike.push rfl rfl

theorem endOperand (same : t = .closeBracket ∨ t = .separator) :
    Alike before (a.endOperand t) (b.endOperand t) := by
  refine (alike.closeDivisor.divide false).push rfl ?_
  rcases same with rfl | rfl <;> rfl

theorem number {complex : Bool} {tail tail' : Shorter (rest.length + 1)}
    (made : a.number complex c rest = .ok (a', tail))
    (made' : b.number complex c rest = .ok (b', tail')) :
    Alike before a' b' ∧ tail' = tail := by
  unfold Scan.number at made made'
  simp only at made made'
  cases read : readNumber (c :: rest.takeWhile isNumberChar) with
  | error e =>
    rw [read] at made
    cases made
  | ok x =>
    rw [read] at made made'
    change (if _ then _ else _) = _ at made made'
    split at made
    · next imaginary =>
      rw [if_pos imaginary] at made'
      cases made
      cases made'
      exact ⟨alike.push rfl rfl, rfl⟩
    · next real =>
      rw [if_neg real] at made'
      cases made
      cases made'
      exact ⟨alike.push rfl rfl, rfl⟩

/-- A unit behind a number; the number is there in both scans. -/
theorem unitSuffix (takes : a.takesUnit = true)
    (ordinary : u.isAssignment = false) : Alike before (a.unitSuffix u) (b.unitSuffix u) := by
  have joined : ∀ {a b : Scan}, Alike before a b →
      Alike before ((a.push (.operator '*' unitSuffixOrder)).push u)
        ((b.push (.operator '*' unitSuffixOrder)).push u) :=
    fun alike => (alike.push rfl (by rfl)).push rfl ordinary
  unfold Scan.unitSuffix
  rw [alike.isDividing, alike.inDivisor]
  dsimp only
  -- A unit takes the number in front of it, so something was read.
  obtain ⟨number, before', first⟩ : ∃ number before', a.reversed = number :: before' := by
    cases same : a.reversed with
    | nil => simp [takesUnit, last?, same] at takes
    | cons number before' => exact ⟨number, before', rfl⟩
  have reversed := alike.reversed
  have plain := alike.ordinary
  rw [first] at reversed plain
  obtain ⟨number', behind', second, same, others⟩ := List.map_eq_cons_iff.1 reversed
  rw [first, second]
  cases divides : a.isDividing && !a.inDivisor with
  | false => exact joined alike
  | true =>
    -- the bracket stands before the number
    refine joined ⟨?_, rfl, rfl, ?_⟩
    · simp only [List.map_cons, same, others]
      rfl
    · rw [List.forall_mem_cons] at plain
      exact List.forall_mem_cons.2 ⟨plain.1, List.forall_mem_cons.2 ⟨rfl, plain.2⟩⟩

theorem function {name : String} (vocabulary : s.SameVocabulary s')
    (made : a.function s name = .ok a') (made' : b.function s' name = .ok b') :
    Alike before a' b' := by
  unfold Scan.function at made made'
  rw [vocabulary.functionToken?_eq] at made'
  cases found : functionToken? s name with
  | some t =>
    rw [found] at made made'
    cases made
    cases made'
    refine alike.push rfl ?_
    unfold functionToken? at found
    repeat' split at found
    all_goals first
      | cases found; rfl
      | obtain ⟨i, -, rfl⟩ := Option.map_eq_some_iff.1 found; rfl
  | none =>
    rw [found] at made made'
    dsimp only at made made'
    split at made <;> split at made' <;> cases made <;> cases made'
    exact alike.push rfl rfl

/-- At the very beginning the first scan may take a name for a unit that is about to be defined,
where the second one does not. -/
theorem signedUnit {name : String} (vocabulary : s.SameVocabulary s')
    (made : a.signedUnit s name after = .ok a') (made' : b.signedUnit s' name after = .ok b') :
    Alike before a' b' ∨ before ≠ [] ∧ a'.HasNewUnit := by
  unfold Scan.signedUnit at made made'
  rw [vocabulary.unitToken_eq] at made'
  -- The second scan is at the very beginning only if nothing stands before the first one.
  have empty : b.reversed.isEmpty = (a.reversed.isEmpty && before.isEmpty) := by
    have none := alike.reversed
    rw [Bool.eq_iff_iff, Bool.and_eq_true, List.isEmpty_iff, List.isEmpty_iff, List.isEmpty_iff,
      ← List.map_eq_nil_iff, none, List.append_eq_nil_iff, List.map_eq_nil_iff]
  rw [empty] at made'
  split at made
  · next begins =>
    rw [Bool.and_eq_true] at begins
    cases made
    cases front : before with
    | nil =>
      rw [front] at made'
      rw [if_pos (by simp [begins])] at made'
      cases made'
      exact .inl (front ▸ alike.push rfl rfl)
    | cons => exact .inr ⟨List.cons_ne_nil _ _, _, List.mem_cons_self, rfl⟩
  · next other =>
    rw [Bool.and_eq_true, not_and] at other
    rw [if_neg (by simpa using fun none _ => other none)] at made'
    cases found : unitToken s name with
    | error e =>
      rw [found] at made
      cases made
    | ok t =>
      rw [found] at made made'
      cases made
      cases made'
      refine .inl (alike.push rfl ?_)
      unfold unitToken at found
      split at found <;> cases found
      rfl

end Alike

/-! ## Tokens stay -/

theorem subset_push (a : Scan) (t : Token) : a.reversed ⊆ (a.push t).reversed :=
  List.subset_cons_self t _

theorem subset_closeDivisor (a : Scan) : a.reversed ⊆ a.closeDivisor.reversed := by
  unfold closeDivisor
  split
  · exact a.subset_push _
  · exact List.Subset.refl _

theorem subset_operator {symbol : Char} (made : a.operator allowed symbol = .ok a') :
    a.reversed ⊆ a'.reversed := by
  unfold operator assign at made
  split at made
  · cases made
    exact a.subset_push _
  · have closed : a.reversed ⊆ (if symbol == '^' then a else a.closeDivisor).reversed := by
      split
      · exact List.Subset.refl _
      · exact a.subset_closeDivisor
    generalize (if symbol == '^' then a else a.closeDivisor) = open_ at closed made
    simp only at made
    repeat' split at made
    all_goals first
      | cases made; exact List.Subset.trans closed (List.subset_cons_self _ _)
      | cases made

theorem subset_factorial (made : a.factorial = .ok a') : a.reversed ⊆ a'.reversed := by
  unfold factorial at made
  split at made
  case h_4 => cases made
  all_goals
    cases made
    exact a.subset_push _

theorem subset_number {complex : Bool} {tail : Shorter (rest.length + 1)}
    (made : a.number complex c rest = .ok (a', tail)) : a.reversed ⊆ a'.reversed := by
  unfold number at made
  simp only at made
  cases read : readNumber (c :: rest.takeWhile isNumberChar) with
  | error e =>
    rw [read] at made
    cases made
  | ok x =>
    rw [read] at made
    change (if _ then _ else _) = _ at made
    split at made <;> cases made <;> exact a.subset_push _

theorem subset_unitSuffix (a : Scan) (u : Token) : a.reversed ⊆ (a.unitSuffix u).reversed := by
  unfold unitSuffix
  split
  · next number before _ same =>
    intro t within
    rw [same] at within
    simp only [push, List.mem_cons] at within ⊢
    tauto
  · exact List.Subset.trans (a.subset_push _) (subset_push _ _)

theorem subset_function {name : String} (made : a.function s name = .ok a') :
    a.reversed ⊆ a'.reversed := by
  unfold function at made
  repeat' split at made
  all_goals first
    | cases made; exact a.subset_push _
    | cases made

theorem subset_signedUnit {name : String} (made : a.signedUnit s name after = .ok a') :
    a.reversed ⊆ a'.reversed := by
  unfold signedUnit at made
  split at made
  · cases made
    exact a.subset_push _
  · cases found : unitToken s name with
    | error e =>
      rw [found] at made
      cases made
    | ok t =>
      rw [found] at made
      cases made
      exact a.subset_push _

section Names

variable {s₁ s₁' : Session} {first : Char} {text : String}

theorem subset_name (made : outcome (a.name first text after) s = (.ok a', s₁)) :
    a.reversed ⊆ a'.reversed := by
  unfold Scan.name at made
  split at made
  · cases made
  · rw [outcome_read] at made
    exact subset_function (Prod.mk.inj made).1
  · split at made
    · obtain ⟨u, s₂, -, made⟩ := exists_of_bind_ok made
      cases made
      exact a.subset_unitSuffix u
    · split at made
      · cases made
        exact a.subset_push _
      · rw [outcome_read] at made
        exact subset_signedUnit (Prod.mk.inj made).1

/-- Names that were read. -/
theorem Alike.name (alike : Alike before a b) (front : ∀ t ∈ before.head?, t.isAssignment = true)
    (vocabulary : s.SameVocabulary s') (made : outcome (a.name first text after) s = (.ok a', s₁))
    (made' : outcome (b.name first text after) s' = (.ok b', s₁')) :
    Alike before a' b' ∨ before ≠ [] ∧ a'.HasNewUnit := by
  have known : ∀ {u}, unitToken s text = .ok u → u.isAssignment = false := by
    intro u found
    unfold unitToken at found
    split at found <;> cases found
    rfl
  unfold Scan.name at made made'
  split at made
  · cases made
  · next opens =>
    rw [opens] at made'
    simp only [outcome_read] at made made'
    exact .inl (alike.function vocabulary (Prod.mk.inj made).1 (Prod.mk.inj made').1)
  · next macro_ call =>
    split at made'
    · next same => exact absurd same macro_
    · next same => exact absurd same call
    rw [alike.takesUnit_eq front] at made'
    split at made
    · next takes =>
      rw [if_pos takes] at made'
      obtain ⟨u, s₂, found, made⟩ := exists_of_bind_ok made
      obtain ⟨u', s₂', found', made'⟩ := exists_of_bind_ok made'
      rw [outcome_read] at found found'
      rw [vocabulary.unitToken_eq, (Prod.mk.inj found).1] at found'
      cases found'
      cases made
      cases made'
      exact .inl (alike.unitSuffix takes (known (Prod.mk.inj found).1))
    · next other =>
      rw [if_neg other] at made'
      split at made
      · next letter =>
        rw [if_pos letter] at made'
        cases made
        cases made'
        exact .inl (alike.push rfl rfl)
      · next sign =>
        rw [if_neg sign] at made'
        rw [outcome_read] at made made'
        exact alike.signedUnit vocabulary (Prod.mk.inj made).1 (Prod.mk.inj made').1

end Names

/-! ## Characters -/

section Characters

variable {limit limit' : Nat} {create : Method → Shorter limit → SessionM Nat}
  {create' : Method → Shorter limit' → SessionM Nat} {within : rest.length < limit}
  {within' : rest.length < limit'} {s₁ s₁' : Session} {tail tail' : Shorter (rest.length + 1)}

/-- An exclamation mark is a factorial, or the beginning of an operator. -/
theorem exclamation_ok (made : a.exclamation allowed rest = .ok (a', tail)) :
    a.operator allowed '≠' = .ok a' ∧ rest.head? = some '=' ∧ tail = (Shorter.all rest).tail ∨
      a.factorial = .ok a' ∧ rest.head? ≠ some '=' ∧ tail = Shorter.all rest := by
  unfold exclamation at made
  split at made
  · next same =>
    cases applied : a.operator allowed '≠' with
    | error e =>
      rw [applied] at made
      cases made
    | ok a₁ =>
      rw [applied] at made
      cases made
      exact .inl ⟨rfl, same, rfl⟩
  · next other =>
    cases applied : a.factorial with
    | error e =>
      rw [applied] at made
      cases made
    | ok a₁ =>
      rw [applied] at made
      cases made
      exact .inr ⟨rfl, other, rfl⟩

theorem subset_block
    (made : outcome (a.block limit create rest within) s = (.ok (a', tail), s₁)) :
    a.reversed ⊆ a'.reversed := by
  unfold block at made
  split at made
  · cases made
  · dsimp only at made
    split at made
    · cases made
    · split at made
      · cases made
      · obtain ⟨index, s₂, -, made⟩ := exists_of_bind_ok made
        cases made
        exact a.subset_push _

theorem subset_input (made : outcome (a.input rest) s = (.ok (a', tail), s₁)) :
    a.reversed ⊆ a'.reversed := by
  unfold input at made
  split at made
  · split at made
    · cases made
    · obtain ⟨x, -, made⟩ := exists_of_ofExcept_ok made
      cases made
      exact a.subset_push _
  · rw [outcome_bind_ok (outcome_get s)] at made
    split at made
    · obtain ⟨_, s₂, -, made⟩ := exists_of_bind_ok made
      obtain ⟨x, -, made⟩ := exists_of_ofExcept_ok made
      cases made
      exact a.subset_push _
    · cases made
      exact a.subset_push _

theorem subset_lexeme
    (made : outcome (a.lexeme limit create allowed c rest within) s = (.ok (a', tail), s₁)) :
    a.reversed ⊆ a'.reversed := by
  unfold lexeme at made
  split at made
  · cases made
    exact List.Subset.refl _
  cases class_ : CharClass.of c with
  | digit =>
    rw [class_] at made
    simp only [outcome_read] at made
    exact subset_number (Prod.mk.inj made).1
  | letter =>
    rw [class_] at made
    simp only [word] at made
    split at made
    · cases made
    · obtain ⟨a₁, s₂, named, made⟩ := exists_of_bind_ok made
      cases made
      exact subset_name named
  | operator =>
    rw [class_] at made
    obtain ⟨a₁, s₂, applied, made⟩ := exists_of_bind_ok made
    rw [outcome_ofExcept] at applied
    cases made
    exact subset_operator (Prod.mk.inj applied).1
  | exclamation =>
    rw [class_] at made
    rw [outcome_ofExcept] at made
    rcases exclamation_ok (Prod.mk.inj made).1 with ⟨applied, -⟩ | ⟨applied, -⟩
    · exact subset_operator applied
    · exact subset_factorial applied
  | openBracket =>
    rw [class_] at made
    cases made
    exact subset_push { a with isDividing := false } _
  | closeBracket | separator =>
    rw [class_] at made
    cases made
    exact List.Subset.trans a.subset_closeDivisor
      (subset_push { a.closeDivisor with isDividing := false } _)
  | block =>
    rw [class_] at made
    exact subset_block made
  | input =>
    rw [class_] at made
    exact subset_input made
  | stop | unknown =>
    rw [class_] at made
    cases made

/-- A lexeme leaves the vocabulary and fewer characters. -/
theorem lexeme_leaves (simple : c ≠ '$' ∧ c ≠ '?')
    (made : outcome (a.lexeme limit create allowed c rest within) s = (.ok (a', tail), s₁)) :
    s.SameVocabulary s₁ ∧ tail.1 ⊆ rest := by
  have adds : Adds Session.SameVocabulary s (Leaves (fun _ ts => ∀ t ∈ ts, True) rest)
      (a.lexeme limit create allowed c rest within) :=
    lexeme_adds Session.reading_sameVocabulary.scanning (fun _ _ => trivial) trivial
      (fun same => absurd same simple.1) (fun same => absurd same simple.2) within
  unfold Adds at adds
  rw [made] at adds
  exact ⟨adds.1, (adds.2 _ rfl).2⟩

theorem subset_run {cs : List Char} {within : cs.length ≤ limit}
    (ran : outcome (run limit create allowed cs within a) s = (.ok a', s₁)) :
    a.reversed ⊆ a'.reversed := by
  -- Strong induction: a lexeme may take more than one character.
  induction n : cs.length using Nat.strongRecOn generalizing cs a s with
  | ind n ih =>
    cases cs with
    | nil =>
      rw [run] at ran
      cases ran
      exact a.subset_closeDivisor
    | cons c rest =>
      rw [run] at ran
      split at ran
      · cases ran
        exact a.subset_closeDivisor
      · obtain ⟨⟨a₁, tail⟩, s₂, made, ran⟩ := exists_of_bind_ok ran
        have behind := tail.2
        refine List.Subset.trans (subset_lexeme made) (ih tail.1.length ?_ ran rfl)
        rw [← n]
        exact behind

/-- What begins with a character is read alike. -/
theorem Alike.lexeme (alike : Alike before a b) (front : ∀ t ∈ before.head?, t.isAssignment = true)
    (vocabulary : s.SameVocabulary s') (simple : c ≠ '$' ∧ c ≠ '?')
    (made : outcome (a.lexeme limit create false c rest within) s = (.ok (a', tail), s₁))
    (made' : outcome (b.lexeme limit' create' allowed c rest within') s' = (.ok (b', tail'), s₁')) :
    tail' = tail ∧ (Alike before a' b' ∨ before ≠ [] ∧ a'.HasNewUnit) := by
  unfold Scan.lexeme at made made'
  split at made
  · next blank =>
    rw [if_pos blank] at made'
    cases made
    cases made'
    exact ⟨rfl, .inl alike⟩
  next visible =>
  rw [if_neg visible] at made'
  cases class_ : CharClass.of c with
  | digit =>
    rw [class_] at made made'
    simp only [outcome_read, vocabulary.settings] at made made'
    obtain ⟨alike', same⟩ := alike.number (Prod.mk.inj made).1 (Prod.mk.inj made').1
    exact ⟨same, .inl alike'⟩
  | letter =>
    rw [class_] at made made'
    simp only [word] at made made'
    split at made
    · cases made
    · next other =>
      rw [if_neg other] at made'
      obtain ⟨a₁, s₂, named, made⟩ := exists_of_bind_ok made
      obtain ⟨b₁, s₂', named', made'⟩ := exists_of_bind_ok made'
      cases made
      cases made'
      exact ⟨rfl, alike.name front vocabulary named named'⟩
  | operator =>
    rw [class_] at made made'
    obtain ⟨a₁, s₂, applied, made⟩ := exists_of_bind_ok made
    obtain ⟨b₁, s₂', applied', made'⟩ := exists_of_bind_ok made'
    rw [outcome_ofExcept] at applied applied'
    cases made
    cases made'
    exact ⟨rfl, .inl (alike.operator front (Prod.mk.inj applied).1 (Prod.mk.inj applied').1)⟩
  | exclamation =>
    rw [class_] at made made'
    rw [outcome_ofExcept] at made made'
    rcases exclamation_ok (Prod.mk.inj made).1 with ⟨applied, mark, rfl⟩ | ⟨applied, mark, rfl⟩ <;>
      rcases exclamation_ok (Prod.mk.inj made').1 with
        ⟨applied', mark', rfl⟩ | ⟨applied', mark', rfl⟩
    · exact ⟨rfl, .inl (alike.operator front applied applied')⟩
    · exact absurd mark mark'
    · exact absurd mark' mark
    · exact ⟨rfl, .inl (alike.factorial applied applied')⟩
  | openBracket =>
    rw [class_] at made made'
    cases made
    cases made'
    exact ⟨rfl, .inl ((alike.divide false).push rfl rfl)⟩
  | closeBracket =>
    rw [class_] at made made'
    cases made
    cases made'
    exact ⟨rfl, .inl (alike.endOperand (.inl rfl))⟩
  | separator =>
    rw [class_] at made made'
    cases made
    cases made'
    exact ⟨rfl, .inl (alike.endOperand (.inr rfl))⟩
  | block => exact absurd ((eq_of_class c).1 class_) simple.1
  | input => exact absurd ((eq_of_class c).2 class_) simple.2
  | stop | unknown =>
    rw [class_] at made
    cases made

/-- Scans that begin alike end alike, unless the first one began with a name that it took for a
unit about to be defined. -/
theorem run_alike {cs : List Char} {within : cs.length ≤ limit} {within' : cs.length ≤ limit'}
    (alike : Alike before a b) (front : ∀ t ∈ before.head?, t.isAssignment = true)
    (vocabulary : s.SameVocabulary s') (simple : ∀ c ∈ cs, c ≠ '$' ∧ c ≠ '?')
    (ran : outcome (run limit create false cs within a) s = (.ok a', s₁))
    (ran' : outcome (run limit' create' allowed cs within' b) s' = (.ok b', s₁')) :
    Alike before a' b' ∨ before ≠ [] ∧ a'.HasNewUnit := by
  -- Strong induction as before. Once the first scan has found a new unit, that stays.
  induction n : cs.length using Nat.strongRecOn generalizing cs a b s s' with
  | ind n ih =>
    cases cs with
    | nil =>
      rw [run] at ran ran'
      cases ran
      cases ran'
      exact .inl alike.closeDivisor
    | cons c rest =>
      rw [List.forall_mem_cons] at simple
      rw [run] at ran ran'
      split at ran
      · next stops =>
        rw [if_pos stops] at ran'
        cases ran
        cases ran'
        exact .inl alike.closeDivisor
      · next goes =>
        rw [if_neg goes] at ran'
        obtain ⟨⟨a₁, tail⟩, s₂, made, ran⟩ := exists_of_bind_ok ran
        obtain ⟨⟨b₁, tail'⟩, s₂', made', ran'⟩ := exists_of_bind_ok ran'
        obtain ⟨rfl, next⟩ := alike.lexeme front vocabulary simple.1 made made'
        obtain ⟨keeps, fewer⟩ := lexeme_leaves simple.1 made
        obtain ⟨keeps', -⟩ := lexeme_leaves simple.1 made'
        have simple' : ∀ c ∈ tail'.1, c ≠ '$' ∧ c ≠ '?' := fun c inside => simple.2 c (fewer inside)
        rcases next with alike' | ⟨behind, t, inside, isNew⟩
        · have vocabulary' := (keeps.symm.trans vocabulary).trans keeps'
          exact ih tail'.1.length (n ▸ tail'.2) alike' vocabulary' simple' ran ran' rfl
        · exact .inr ⟨behind, t, subset_run ran inside, isNew⟩

end Characters

end Scan

end UnitCalc
