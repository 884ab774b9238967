/-
# Expressions behind an assignment

An expression is read in the same way behind the name and the sign of an assignment as by itself.
Only at the very beginning of a statement may something else be read: the name of a function or a
unit that the statement defines, or a second assignment.

## Main definitions

* `Token.isPending`: tokens of assignments and definitions.
* `Scan.Behind`: a scan has read what another one has, behind an assignment.
* `SessionM.tokenize`: the tokens of a statement.

## Main results

* `Scan.run_behind`: an expression is read behind an assignment as by itself.
* `SessionM.outcome_tokenize_assignment`: so is the text of an assignment.
-/

import UnitCalc.Proofs.Statement.Header
import UnitCalc.Proofs.Statement.Widening
import UnitCalc.Statement.Parse

namespace UnitCalc

open SessionM

namespace Token

/-- The token assigns something, or stands for what a statement is about to define. -/
def isPending (t : Token) : Bool :=
  t.isAssignment || t.isNewUnit || t.isForward

/-- The token is as scans make it: it is visible, and if it is an operator, it is not ordered yet,
or it joins a number to its unit. -/
def isUnbound : Token → Bool
  | blank _ => false
  | operator _ order => order == unordered || order == unitSuffixOrder
  | _ => true

end Token

namespace Scan

variable {target t : Token} {a b a' : Scan} {s s₁ : Session} {allowed : Bool} {c : Char}
  {rest after : List Char}

/-- Something was read that assigns or defines. -/
def HasPending (a : Scan) : Prop :=
  ∃ t ∈ a.reversed, t.isPending = true

theorem HasPending.mono (pending : a.HasPending) (keeps : a.reversed ⊆ b.reversed) :
    b.HasPending := by
  obtain ⟨t, within, isPending⟩ := pending
  exact ⟨t, keeps within, isPending⟩

/-- Two scans have read the same, the second one behind an assignment to `target`. -/
structure Behind (target : Token) (a b : Scan) : Prop where
  reversed : b.reversed = a.reversed ++ [.ofSymbol '=', target]
  assignment : b.assignment = 1
  isDividing : b.isDividing = a.isDividing
  inDivisor : b.inDivisor = a.inDivisor
  unassigned : a.assignment = 0
  unbound : ∀ t ∈ a.reversed, t.isUnbound = true

namespace Behind

theorem start (target : Token) :
    Behind target {} { reversed := [.ofSymbol '=', target], assignment := 1 } :=
  ⟨rfl, rfl, rfl, rfl, rfl, List.forall_mem_nil _⟩

variable (behind : Behind target a b)

include behind

theorem tokens : b.tokens = target :: .ofSymbol '=' :: a.tokens := by
  rw [Scan.tokens, behind.reversed, List.reverse_append]
  rfl

theorem push (unbound : t.isUnbound = true) : Behind target (a.push t) (b.push t) where
  reversed := congrArg (t :: ·) behind.reversed
  assignment := behind.assignment
  isDividing := behind.isDividing
  inDivisor := behind.inDivisor
  unassigned := behind.unassigned
  unbound := List.forall_mem_cons.2 ⟨unbound, behind.unbound⟩

theorem divided (isDividing : Bool) :
    Behind target { a with isDividing } { b with isDividing } where
  reversed := behind.reversed
  assignment := behind.assignment
  isDividing := rfl
  inDivisor := behind.inDivisor
  unassigned := behind.unassigned
  unbound := behind.unbound

theorem closeDivisor : Behind target a.closeDivisor b.closeDivisor := by
  unfold Scan.closeDivisor
  rw [behind.inDivisor]
  split
  · have pushed := behind.push (t := .closeBracket) rfl
    exact ⟨pushed.reversed, pushed.assignment, pushed.isDividing, rfl, pushed.unassigned,
      pushed.unbound⟩
  · exact behind

/-- Behind an assignment the same may stand as at the beginning. -/
theorem last?_eq {α : Type} {f : Option Token → α} (begins : f (some (.ofSymbol '=')) = f none) :
    f b.last? = f a.last? := by
  rw [last?, last?, behind.reversed]
  cases a.reversed with
  | nil => exact begins
  | cons t ts => rfl

theorem expectsOperand_eq : b.expectsOperand = a.expectsOperand := by
  rw [← expectsOperand_ending a, ← expectsOperand_ending b]
  exact behind.last?_eq (f := fun t => (ending t).expectsOperand) rfl

theorem takesUnit_eq : b.takesUnit = a.takesUnit := by
  rw [← takesUnit_ending a, ← takesUnit_ending b]
  exact behind.last?_eq (f := fun t => (ending t).takesUnit) rfl

theorem operator {symbol : Char} (made : a.operator allowed symbol = .ok a') :
    a'.HasPending ∨ ∃ b', b.operator allowed symbol = .ok b' ∧ Behind target a' b' := by
  unfold Scan.operator at made ⊢
  rw [behind.expectsOperand_eq]
  split at made
  · next sign =>
    cases made
    rw [if_pos sign]
    exact .inr ⟨_, rfl, behind.push rfl⟩
  · next sign =>
    rw [if_neg sign]
    -- A power stays in the divisor that was opened before, any other operator closes it.
    have closed : Behind target (if symbol == '^' then a else a.closeDivisor)
        (if symbol == '^' then b else b.closeDivisor) := by
      split
      · exact behind
      · exact behind.closeDivisor
    generalize (if symbol == '^' then a else a.closeDivisor) = a₁ at closed made
    generalize (if symbol == '^' then b else b.closeDivisor) = b₁ at closed
    simp only at made ⊢
    split at made
    · unfold Scan.assign at made
      split at made
      · cases made
      · cases made
        exact .inl ⟨_, List.mem_cons_self, rfl⟩
    · next other =>
      cases made
      rw [if_neg other]
      exact .inr ⟨_, rfl, (closed.divided _).push (t := .ofSymbol symbol) rfl⟩

theorem last?_of_some (last : a.last? = some t) : b.last? = some t := by
  unfold last? at last ⊢
  rw [behind.reversed]
  cases read : a.reversed with
  | nil =>
    rw [read] at last
    cases last
  | cons u us =>
    rw [read] at last
    exact last

theorem factorial (made : a.factorial = .ok a') :
    ∃ b', b.factorial = .ok b' ∧ Behind target a' b' := by
  unfold Scan.factorial at made ⊢
  cases last : a.last? with
  | none =>
    rw [last] at made
    cases made
  | some t =>
    rw [last] at made
    rw [behind.last?_of_some last]
    cases t with
    | constant | closeBracket | «variable» =>
      cases made
      exact ⟨_, rfl, behind.push rfl⟩
    | _ => cases made

theorem endOperand (t : Token) (unbound : t.isUnbound = true) :
    Behind target (a.endOperand t) (b.endOperand t) :=
  (behind.closeDivisor.divided false).push unbound

theorem number {complex : Bool} {tail : Shorter (rest.length + 1)}
    (made : a.number complex c rest = .ok (a', tail)) :
    ∃ b', b.number complex c rest = .ok (b', tail) ∧ Behind target a' b' := by
  unfold Scan.number at made ⊢
  simp only at made ⊢
  cases read : readNumber (c :: rest.takeWhile isNumberChar) with
  | error e =>
    rw [read] at made
    cases made
  | ok x =>
    rw [read] at made
    change (if _ then _ else _) = _ at made
    split at made
    · next imaginary =>
      cases made
      exact ⟨_, if_pos imaginary, behind.push rfl⟩
    · next real =>
      cases made
      exact ⟨_, if_neg real, behind.push rfl⟩

/-- The number that a unit follows was read in both scans. -/
theorem unitSuffix {u : Token} (takes : a.takesUnit = true) (unbound : u.isUnbound = true) :
    Behind target (a.unitSuffix u) (b.unitSuffix u) := by
  have joined : ∀ {a b : Scan}, Behind target a b →
      Behind target ((a.push (.operator '*' unitSuffixOrder)).push u)
        ((b.push (.operator '*' unitSuffixOrder)).push u) :=
    fun behind => (behind.push rfl).push unbound
  obtain ⟨number, before, first⟩ : ∃ number before, a.reversed = number :: before := by
    cases same : a.reversed with
    | nil => simp [takesUnit, last?, same] at takes
    | cons number before => exact ⟨number, before, rfl⟩
  have second : b.reversed = number :: (before ++ [.ofSymbol '=', target]) := by
    rw [behind.reversed, first]
    rfl
  have read := behind.unbound
  rw [first, List.forall_mem_cons] at read
  unfold Scan.unitSuffix
  rw [behind.isDividing, behind.inDivisor]
  dsimp only
  rw [first, second]
  cases divides : a.isDividing && !a.inDivisor with
  | false => exact joined behind
  | true =>
    -- the bracket stands before the number
    refine joined ⟨rfl, behind.assignment, rfl, rfl, behind.unassigned, ?_⟩
    exact List.forall_mem_cons.2 ⟨read.1, List.forall_mem_cons.2 ⟨rfl, read.2⟩⟩

/-- A function that does not exist may only be called where it is defined. -/
theorem function {name : String} (made : a.function s name = .ok a') :
    a'.HasPending ∨ ∃ b', b.function s name = .ok b' ∧ Behind target a' b' := by
  unfold Scan.function at made ⊢
  cases found : functionToken? s name with
  | some t =>
    rw [found] at made
    cases made
    refine .inr ⟨_, rfl, behind.push ?_⟩
    unfold functionToken? at found
    repeat' split at found
    all_goals first
      | cases found; rfl
      | obtain ⟨i, -, rfl⟩ := Option.map_eq_some_iff.1 found; rfl
  | none =>
    rw [found] at made
    dsimp only at made
    split at made
    · cases made
      exact .inl ⟨_, List.mem_cons_self, rfl⟩
    · cases made

theorem signedUnit {name : String} (made : a.signedUnit s name after = .ok a') :
    a'.HasPending ∨ ∃ b', b.signedUnit s name after = .ok b' ∧ Behind target a' b' := by
  have written : b.reversed.isEmpty = false := by
    rw [behind.reversed]
    cases a.reversed <;> rfl
  unfold Scan.signedUnit at made ⊢
  rw [written, Bool.false_and, if_neg (by decide)]
  split at made
  · cases made
    exact .inl ⟨_, List.mem_cons_self, rfl⟩
  · cases found : unitToken s name with
    | error e =>
      rw [found] at made
      cases made
    | ok u =>
      rw [found] at made
      cases made
      refine .inr ⟨_, rfl, behind.push ?_⟩
      unfold unitToken at found
      split at found <;> cases found
      rfl

theorem name {first : Char} {text : String}
    (made : outcome (a.name first text after) s = (.ok a', s₁)) :
    a'.HasPending ∨ ∃ b', outcome (b.name first text after) s = (.ok b', s₁) ∧
      Behind target a' b' := by
  rw [name_eq] at made ⊢
  rw [behind.takesUnit_eq]
  split at made
  · cases made
  · next macro_ =>
    rw [if_neg macro_]
    split at made
    · next call =>
      rw [if_pos call]
      rw [outcome_read] at made
      obtain ⟨called, rfl⟩ := Prod.mk.inj made
      rcases behind.function called with pending | ⟨b', made', behind'⟩
      · exact .inl pending
      · exact .inr ⟨b', by rw [outcome_read, made'], behind'⟩
    · next other =>
      rw [if_neg other]
      split at made
      · next takes =>
        rw [if_pos takes]
        obtain ⟨u, s₂, found, made⟩ := exists_of_bind_ok made
        cases made
        refine .inr ⟨_, (outcome_bind_ok found).trans rfl, behind.unitSuffix takes ?_⟩
        rw [outcome_read] at found
        have found := (Prod.mk.inj found).1
        unfold unitToken at found
        split at found <;> cases found
        rfl
      · next free =>
        rw [if_neg free]
        split at made
        · next letter =>
          rw [if_pos letter]
          cases made
          exact .inr ⟨_, rfl, behind.push rfl⟩
        · next sign =>
          rw [if_neg sign]
          rw [outcome_read] at made
          obtain ⟨found, rfl⟩ := Prod.mk.inj made
          rcases behind.signedUnit found with pending | ⟨b', made', behind'⟩
          · exact .inl pending
          · exact .inr ⟨b', by rw [outcome_read, made'], behind'⟩

variable {limit : Nat} {create : Method → Shorter limit → SessionM Nat}
  {within : rest.length < limit} {tail : Shorter (rest.length + 1)}

theorem block (made : outcome (a.block limit create rest within) s = (.ok (a', tail), s₁)) :
    ∃ b', outcome (b.block limit create rest within) s = (.ok (b', tail), s₁) ∧
      Behind target a' b' := by
  unfold Scan.block at made ⊢
  split at made
  · cases made
  · dsimp only at made ⊢
    split at made
    · cases made
    · split at made
      · cases made
      · obtain ⟨index, s₂, created, made⟩ := exists_of_bind_ok made
        cases made
        exact ⟨_, (outcome_bind_ok created).trans rfl, behind.push rfl⟩

theorem input (made : outcome (a.input rest) s = (.ok (a', tail), s₁)) :
    ∃ b', outcome (b.input rest) s = (.ok (b', tail), s₁) ∧ Behind target a' b' := by
  unfold Scan.input at made ⊢
  split at made
  · split at made
    · cases made
    · obtain ⟨x, s₂, read, made⟩ := exists_of_bind_ok made
      cases made
      exact ⟨_, (outcome_bind_ok read).trans rfl, behind.push rfl⟩
  · rw [outcome_bind_ok (outcome_get s)] at made
    rw [outcome_bind_ok (outcome_get s)]
    split at made
    · obtain ⟨_, s₂, taken, made⟩ := exists_of_bind_ok made
      obtain ⟨x, s₃, read, made⟩ := exists_of_bind_ok made
      cases made
      exact ⟨_, (outcome_bind_ok taken).trans ((outcome_bind_ok read).trans rfl), behind.push rfl⟩
    · cases made
      exact ⟨_, rfl, behind.push rfl⟩

theorem lexeme
    (made : outcome (a.lexeme limit create allowed c rest within) s = (.ok (a', tail), s₁)) :
    a'.HasPending ∨ ∃ b', outcome (b.lexeme limit create allowed c rest within) s =
      (.ok (b', tail), s₁) ∧ Behind target a' b' := by
  unfold Scan.lexeme at made ⊢
  split at made
  · next blank =>
    rw [if_pos blank]
    cases made
    exact .inr ⟨b, rfl, behind⟩
  next visible =>
  rw [if_neg visible]
  cases class_ : CharClass.of c with
  | digit =>
    rw [class_] at made
    simp only [outcome_read, Prod.mk.injEq] at made ⊢
    obtain ⟨read, rfl⟩ := made
    obtain ⟨b', read', behind'⟩ := behind.number read
    exact .inr ⟨b', ⟨read', rfl⟩, behind'⟩
  | letter =>
    rw [class_] at made
    simp only [word] at made ⊢
    split at made
    · cases made
    · next other =>
      rw [if_neg other]
      obtain ⟨a₁, s₂, named, made⟩ := exists_of_bind_ok made
      cases made
      rcases behind.name named with pending | ⟨b', named', behind'⟩
      · exact .inl pending
      · exact .inr ⟨b', (outcome_bind_ok named').trans rfl, behind'⟩
  | operator =>
    rw [class_] at made
    generalize operatorAt c rest = sign at made ⊢
    obtain ⟨symbol, behindSign⟩ := sign
    obtain ⟨a₁, applied, made⟩ := exists_of_ofExcept_ok made
    cases made
    rcases behind.operator applied with pending | ⟨b', applied', behind'⟩
    · exact .inl pending
    · refine .inr ⟨b', ?_, behind'⟩
      simp only [applied']
      rfl
  | exclamation =>
    rw [class_] at made
    simp only [outcome_ofExcept, Prod.mk.injEq] at made ⊢
    obtain ⟨read, rfl⟩ := made
    unfold Scan.exclamation at read ⊢
    split at read
    · cases applied : a.operator allowed '≠' with
      | error e =>
        rw [applied] at read
        cases read
      | ok a₁ =>
        rw [applied] at read
        cases read
        rcases behind.operator applied with pending | ⟨b', applied', behind'⟩
        · exact .inl pending
        · exact .inr ⟨b', ⟨by rw [applied']; rfl, rfl⟩, behind'⟩
    · cases applied : a.factorial with
      | error e =>
        rw [applied] at read
        cases read
      | ok a₁ =>
        rw [applied] at read
        cases read
        obtain ⟨b', applied', behind'⟩ := behind.factorial applied
        exact .inr ⟨b', ⟨by rw [applied']; rfl, rfl⟩, behind'⟩
  | openBracket =>
    rw [class_] at made
    cases made
    exact .inr ⟨_, rfl, (behind.divided false).push rfl⟩
  | closeBracket | separator =>
    rw [class_] at made
    cases made
    exact .inr ⟨_, rfl, behind.endOperand _ rfl⟩
  | block =>
    rw [class_] at made
    exact .inr (behind.block made)
  | input =>
    rw [class_] at made
    exact .inr (behind.input made)
  | stop | unknown =>
    rw [class_] at made
    cases made

end Behind

variable {limit : Nat} {create : Method → Shorter limit → SessionM Nat}

/-- What is read by itself, and neither assigns nor defines, is read behind an assignment, too. -/
theorem run_behind {cs : List Char} {within : cs.length ≤ limit} (behind : Behind target a b)
    (ran : outcome (run limit create allowed cs within a) s = (.ok a', s₁))
    (settled : ¬ a'.HasPending) :
    ∃ b', outcome (run limit create allowed cs within b) s = (.ok b', s₁) ∧
      Behind target a' b' := by
  -- Strong induction: a lexeme may take more than one character.
  induction n : cs.length using Nat.strongRecOn generalizing cs a b s with
  | ind n ih =>
    cases cs with
    | nil =>
      rw [run] at ran ⊢
      cases ran
      exact ⟨_, rfl, behind.closeDivisor⟩
    | cons c rest =>
      rw [run] at ran ⊢
      split at ran
      · next stops =>
        rw [if_pos stops]
        cases ran
        exact ⟨_, rfl, behind.closeDivisor⟩
      · next goes =>
        rw [if_neg goes]
        obtain ⟨⟨a₁, tail⟩, s₂, made, ran⟩ := exists_of_bind_ok ran
        rcases behind.lexeme made with pending | ⟨b₁, made', behind'⟩
        · exact absurd (pending.mono (subset_run ran)) settled
        · rw [outcome_bind_ok made']
          exact ih tail.1.length (n ▸ tail.2) behind' ran rfl

/-- The name and the sign of an assignment, with a blank behind each. -/
theorem run_assignment {x : String} {cs : List Char} (isName : isName x = true)
    (within : (x.toList ++ ' ' :: '=' :: ' ' :: cs).length ≤ limit) (within' : cs.length ≤ limit) :
    outcome (run limit create true (x.toList ++ ' ' :: '=' :: ' ' :: cs) within {}) s =
      outcome (run limit create true cs within' {
        reversed := [.ofSymbol '=', .variable (some (s.cellOf x).1) x]
        assignment := 1 }) (s.cellOf x).2 := by
  have first : (' ' :: '=' :: ' ' :: cs).length ≤ limit := Nat.le_trans (by simp) within
  have second : ('=' :: ' ' :: cs).length ≤ limit := Nat.le_of_succ_le first
  have third : (' ' :: cs).length ≤ limit := Nat.le_of_succ_le second
  rw [run_name isName (by decide +kernel) (by decide) rfl within first]
  refine (run_next (t := Shorter.all _) (by decide) rfl rfl second).trans ?_
  refine (run_next (t := Shorter.all _) (by decide) rfl rfl third).trans ?_
  exact run_next (t := Shorter.all _) (by decide) rfl rfl within'

end Scan

/-! ## Statements -/

/-- The text of an assignment. -/
def Statement.assignmentText (x text : String) : String :=
  x ++ " = " ++ text

theorem Statement.split_assignmentText {x : String} (isName : Scan.isName x = true)
    (text : String) : split (assignmentText x text).toList =
      (x.toList ++ ' ' :: '=' :: ' ' :: (split text.toList).1, (split text.toList).2) := by
  have ordinary : ∀ c ∈ x.toList ++ [' ', '=', ' '], Text.isOrdinary c = true := by
    rw [List.forall_mem_append]
    exact ⟨fun c within => Scan.isOrdinary_of_isWordChar
      (Scan.isWordChar_of_isName isName c within), by decide⟩
  have together := split_append ordinary text.toList
  simpa [assignmentText] using together

namespace SessionM

variable {s s' : Session} {scan : Scan} {x text : String}

/-- Reads the tokens of a statement. -/
def tokenize (source : List Char) (allowed : Bool) : SessionM Scan :=
  Scan.run source.length
    (createBlock fun part allowed => return (← parseStatement part.1 allowed).program) allowed
    (Statement.split source).1 (Statement.length_split source) {}

theorem parseStatement_eq (source : List Char) (allowed : Bool) :
    parseStatement source allowed = (do
      let unit ← parseUnit (Statement.split source).2
      ofScan source unit (← tokenize source allowed)) := by
  rw [parseStatement]
  rfl

/-- Behind the name of a variable an expression is read as it is in the session that has a cell for
this variable. -/
theorem outcome_tokenize_assignment (isName : Scan.isName x = true)
    (scanned : outcome (tokenize text.toList true) (s.cellOf x).2 = (.ok scan, s'))
    (settled : ¬ scan.HasPending) :
    ∃ scan', outcome (tokenize (Statement.assignmentText x text).toList true) s =
      (.ok scan', s') ∧ Scan.Behind (.variable (some (s.cellOf x).1) x) scan scan' := by
  have split := Statement.split_assignmentText isName text
  have le : text.toList.length ≤ (Statement.assignmentText x text).toList.length := by
    simp only [Statement.assignmentText, String.toList_append, List.length_append]
    omega
  let create (n : Nat) : Method → Shorter n → SessionM Nat :=
    createBlock fun part allowed => return (← parseStatement part.1 allowed).program
  -- How long the whole text is does not matter for the blocks in it.
  have widened : Scan.run _ _ true _ _ {} = Scan.run _ _ true _ _ {} :=
    Scan.run_widen le (create (Statement.assignmentText x text).toList.length)
      (Statement.length_split text.toList) (Nat.le_trans (Statement.length_split text.toList) le) {}
  have same : (fun method script => create (Statement.assignmentText x text).toList.length method
      (script.widen le)) = create text.toList.length := by
    funext method script
    exact createBlock_widen ..
  rw [same] at widened
  have ran : outcome (Scan.run _ (create text.toList.length) true _ _ {}) (s.cellOf x).2 =
    (.ok scan, s') := scanned
  rw [widened] at ran
  obtain ⟨scan', ran', behind⟩ :=
    Scan.run_behind (.start (.variable (some (s.cellOf x).1) x)) ran settled
  refine ⟨scan', ?_, behind⟩
  rw [← ran', tokenize]
  have chars : (Statement.split (Statement.assignmentText x text).toList).1 =
      x.toList ++ ' ' :: '=' :: ' ' :: (Statement.split text.toList).1 := congrArg Prod.fst split
  rw [Scan.run_chars chars _ (chars ▸ Statement.length_split _)]
  exact Scan.run_assignment isName _ _

end SessionM

end UnitCalc
