/-
# Names of units

Statements read the name of a unit over letters, signs of units and digits. In a unit expression
names have no digits: there a digit behind a name begins a number, and no number may stand behind a
name. So a unit that a statement defines is found by its name in unit expressions exactly if its
name has no digits. Wherever it is found, it is what the name stands for in statements too.

## Main definitions

* `Scan.HasNoDigit`: a name without digits.

## Main results

* `Scan.parse_eq_ok_iff_of_isWord`: what a word is as a unit expression.
* `Session.Becomes.parse_definedUnit`: what the name of a unit is behind its definition.
-/

import UnitCalc.Proofs.Measure.Denoting
import UnitCalc.Proofs.Session.Whole
import UnitCalc.Proofs.Statement.Lexing

namespace UnitCalc

open SessionM

/-! ## Words in unit expressions -/

namespace UnitToken

variable {c : Char} {cs : List Char} {ts : List UnitToken}

/-- Where a name begins, it is the first token. -/
theorem Spells.exists_name (letter : isUnitChar c = true) (spells : Spells (c :: cs) ts) :
    ∃ word rest us, cs = word ++ rest ∧ (∀ d ∈ word, isUnitChar d = true) ∧
      (∀ d ∈ rest.head?, isUnitChar d = false) ∧
      ts = .name (String.ofList (c :: word)) :: us ∧ Spells rest us := by
  obtain ⟨noNumber, noSign, visible⟩ := isUnitChar_spec letter
  cases spells with
  | blank blank => rw [visible] at blank; cases blank
  | sign known => exact absurd known (noSign _)
  | number word begins => rw [noNumber] at begins; cases begins
  | name word _ goesOn ends rest => exact ⟨word, _, _, rfl, goesOn, ends, rfl, rest⟩

/-- Where a number begins, it is the first token. -/
theorem Spells.exists_number (begins : beginsNumber c = true) (spells : Spells (c :: cs) ts) :
    ∃ text us, ts = .number text :: us := by
  obtain ⟨noSign, visible⟩ := beginsNumber_spec begins
  cases spells with
  | blank blank => rw [visible] at blank; cases blank
  | sign known => exact absurd known (noSign _)
  | number word => exact ⟨_, _, rfl⟩
  | name word letter => rw [(isUnitChar_spec letter).1] at begins; cases begins

/-- No number stands behind a name. -/
theorem check_name_number (name number : String) (ts : List UnitToken) :
    check (.name name :: .number number :: ts) = .error (.illegalPair name number) :=
  rfl

end UnitToken

namespace Scan

/-- The name has no digits. -/
def HasNoDigit (name : String) : Prop :=
  ∀ c ∈ name.toList, c.isDigit = false

variable {R E : Type} [Scalar R] [Exponent E] [Narrowing R E] {s : Session} {name : String}
  {c : Char} {find : String → Option (MeasureUnit R E)} {u v : MeasureUnit R E}

theorem isDigit_of_isUnitChar (letter : isUnitChar c = true) : c.isDigit = false := by
  have noNumber := (UnitToken.isUnitChar_spec letter).1
  simp only [UnitToken.beginsNumber, Bool.or_eq_false_iff] at noNumber
  exact noNumber.1.1

/-- Words consist of digits and of what names of unit expressions consist of. -/
theorem isUnitChar_of_isWordChar (inWord : isWordChar c = true) (noDigit : c.isDigit = false) :
    isUnitChar c = true := by
  rw [isWordChar, noDigit, Bool.false_or, decide_eq_true_eq] at inWord
  exact isUnitChar_of_class inWord

theorem isBlank_of_isWordChar (inWord : isWordChar c = true) : Text.isBlank c = false := by
  refine Text.isBlank_of_class inWord ?_
  simp only [isWordChar, CharClass.of, isUnitChar, Text.isAlphabetic, Text.inSpans_eq]
  decide +kernel

section Word

variable (isWord : isWord name = true)

include isWord

theorem colon_of_isWord : ':' ∉ name.toList := by
  intro within
  have colon : isWordChar ':' = false := by decide +kernel
  rw [isWordChar_of_isWord isWord _ within] at colon
  cases colon

/-- A word without digits is a name of unit expressions. -/
theorem denotes_of_isWord (noDigit : HasNoDigit name) (found : find name = some u) :
    UnitTree.Denotes find 0 name.toList (.unit u) := by
  refine .name ?_ (fun c within => ?_) found
  · obtain ⟨c, rest, rfl, -⟩ := exists_of_isWord isWord
    rw [String.toList_ofList]
    exact List.cons_ne_nil _ _
  · exact isUnitChar_of_isWordChar (isWordChar_of_isWord isWord c within) (noDigit c within)

/-- A word that is a unit expression has no digits. -/
theorem hasNoDigit_of_parse (parsed : MeasureUnit.parse find name = .ok v) : HasNoDigit name := by
  rw [MeasureUnit.parse_eq, UnitTree.Denotes.cutAt_of_not_mem (colon_of_isWord isWord)] at parsed
  cases expression : MeasureUnit.parseExpression find name.toList with
  | error e => rw [expression] at parsed; cases parsed
  | ok w =>
    obtain ⟨tokens, spells, checked, -⟩ := (MeasureUnit.parseExpression_eq_ok_iff _ w).1 expression
    obtain ⟨c, rest, rfl, begins, -, inside⟩ := exists_of_isWord isWord
    unfold HasNoDigit
    rw [String.toList_ofList] at spells ⊢
    have first := isUnitChar_of_class begins
    obtain ⟨word, behind, us, rfl, letters, ends, rfl, spells'⟩ := spells.exists_name first
    cases behind with
    | nil =>
      rw [List.append_nil, List.forall_mem_cons]
      exact ⟨isDigit_of_isUnitChar first, fun d within => isDigit_of_isUnitChar (letters d within)⟩
    | cons d behind =>
      -- The first character that is none of names is a digit, and a number begins there.
      have digit : d.isDigit = true := by
        by_contra other
        have letter := isUnitChar_of_isWordChar (inside d (by simp)) (Bool.eq_false_iff.2 other)
        rw [ends d rfl] at letter
        cases letter
      obtain ⟨number, us', rfl⟩ := spells'.exists_number (by simp [UnitToken.beginsNumber, digit])
      rw [UnitToken.check_name_number] at checked
      cases checked

/-- A word that names a unit is this unit as a unit expression if it has no digits, and otherwise it
is none. -/
theorem parse_eq_ok_iff_of_isWord (found : find name = some u) :
    MeasureUnit.parse find name = .ok v ↔ HasNoDigit name ∧ v = u := by
  have parses (noDigit : HasNoDigit name) : MeasureUnit.parse find name = .ok u :=
    ((denotes_of_isWord isWord noDigit found).looser (Nat.zero_le _)).parse
  constructor
  · intro parsed
    have noDigit := hasNoDigit_of_parse isWord parsed
    rw [parses noDigit] at parsed
    exact ⟨noDigit, (Except.ok.inj parsed).symm⟩
  · rintro ⟨noDigit, rfl⟩
    exact parses noDigit

/-- A word behind the bar of a statement is read as a unit expression. -/
theorem parseUnit_eq_ok_iff_of_isWord {unit : Option ValueUnit} :
    (outcome (parseUnit (some name.toList)) s).1 = .ok unit ↔
      ∃ u, MeasureUnit.parse s.unit? name = .ok u ∧ unit = some u := by
  have kept : Text.trimList name.toList = name.toList :=
    trimList_of_noBlank fun c within => isBlank_of_isWordChar (isWordChar_of_isWord isWord c within)
  unfold parseUnit
  rw [Option.getD_some, kept]
  obtain ⟨c, rest, rfl, -⟩ := exists_of_isWord isWord
  simp only [String.toList_ofList, outcome_read]
  cases MeasureUnit.parse s.unit? (String.ofList (c :: rest)) <;> simp [eq_comm]

end Word

end Scan

/-! ## Units that statements define -/

theorem Token.eq_unit_of_isNewUnit {t : Token} (new : t.isNewUnit = true) :
    t = .unit none t.content := by
  unfold Token.isNewUnit at new
  split at new
  · rfl
  · cases new

namespace Session

variable {P : Session → Prop} {s s' s₁ : Session} {statement : Statement} {o : Outcome}
  {name : String}

/-- The unit of the value is added under its name. -/
theorem Completes.exists_unit
    (completes : Completes P (some (.unit none name)) (.ok o, s')) :
    ∃ u, unitOfValue name o.value = .ok u ∧ s'.unit? name = some u := by
  cases completes with
  | unit _ _ defined =>
    obtain ⟨u, made, units, -⟩ := exists_of_defineUnit defined
    refine ⟨u, made, ?_⟩
    rw [unit?, units, List.lookup_cons_self]

/-- A statement that defines a unit leaves it under its name. The name is this unit in unit
expressions and behind the bar of a statement if it has no digits, and otherwise it is refused
there. -/
theorem Becomes.parse_definedUnit {settings : Settings} {g : StdGen} {text : String}
    (before : (Session.start settings g).Becomes s₁)
    (read : (outcome (parse text) s₁).1 = .ok statement)
    (defines : statement.target? = some (.unit none name))
    (ended : outcome (runStatement statement) s = (.ok o, s')) :
    ∃ u, unitOfValue name o.value = .ok u ∧ s'.unit? name = some u ∧
      (∀ v, MeasureUnit.parse s'.unit? name = .ok v ↔ Scan.HasNoDigit name ∧ v = u) ∧
      (∀ unit, (outcome (parseUnit (some name.toList)) s').1 = .ok unit ↔
        Scan.HasNoDigit name ∧ unit = some u) ∧
      (Scan.HasNoDigit name → UnitTree.Denotes s'.unit? 0 name.toList (.unit u)) := by
  have informed₁ := before.informed (replaced_clear _).informed
  have isWord : Scan.isWord name = true :=
    (((informed₁.advances_parse text).2 statement read).2 _ (mem_of_target? defines)).spelled
  have completes := s.completes_evolves statement
  rw [defines, ended] at completes
  obtain ⟨u, made, found⟩ := completes.exists_unit
  have parses (v : ValueUnit) := Scan.parse_eq_ok_iff_of_isWord (v := v) isWord found
  refine ⟨u, made, found, parses, fun unit => ?_,
    fun noDigit => Scan.denotes_of_isWord isWord noDigit found⟩
  simp [Scan.parseUnit_eq_ok_iff_of_isWord isWord, parses, and_assoc]

/-- A unit whose name has no digits. -/
theorem parse_definedUnit_currency : ∃ (s₁ s' : Session) (statement : Statement) (o : Outcome),
    (Session.start {} ⟨1, 1⟩).Becomes s₁ ∧ (outcome (parse "€ = 2") s₁).1 = .ok statement ∧
      statement.target? = some (.unit none "€") ∧
      outcome (runStatement statement) (s₁.after (.read "€ = 2")) = (.ok o, s') ∧
      Scan.HasNoDigit "€" ∧
      ∃ u, MeasureUnit.parse s'.unit? "€" = .ok u ∧ unitOfValue "€" o.value = .ok u := by
  let s₁ := Session.start {} ⟨1, 1⟩
  let s := s₁.after (.read "€ = 2")
  have seen : (outcome (parse "€ = 2") s₁).1.toOption.any (fun statement =>
      statement.target?.any (fun t => t.isNewUnit && t.content == "€") &&
      (outcome (runStatement statement) s).1.toOption.isSome) = true := by
    decide +kernel
  obtain ⟨statement, made, told⟩ := (Option.any_eq_true _ _).1 seen
  obtain ⟨assigns, ends⟩ := (Bool.and_eq_true _ _).mp told
  obtain ⟨t, target, new⟩ := (Option.any_eq_true _ _).1 assigns
  rw [Bool.and_eq_true, beq_iff_eq] at new
  obtain ⟨o, value⟩ := Option.isSome_iff_exists.1 ends
  have read := ok_of_toOption made
  have defines : statement.target? = some (.unit none "€") := by
    rw [target, Token.eq_unit_of_isNewUnit new.1, new.2]
  have ended : outcome (runStatement statement) s =
      (.ok o, (outcome (runStatement statement) s).2) := Prod.ext (ok_of_toOption value) rfl
  have noDigit : Scan.HasNoDigit "€" := by
    unfold Scan.HasNoDigit
    decide
  obtain ⟨u, unit, -, parses, -⟩ := Becomes.parse_definedUnit .start read defines ended
  exact ⟨s₁, _, statement, o, .start, read, defines, ended, noDigit, u,
    (parses u).2 ⟨noDigit, rfl⟩, unit⟩

end Session

end UnitCalc
