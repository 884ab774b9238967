/-
# Reading numeric statements

A statement is numeric when it has no blocks, no inputs and no unit behind a bar, and when its
tokens are numeric apart from an assignment. Reading it leaves a sound session sound, whether
it defines a function or not, and its program consists of such tokens.

## Main definitions

* `Session.ReadsNumbers`: a text is numeric in a session.

## Main results

* `Session.Sound.parseStatement`: numeric statements leave a session sound.
-/

import UnitCalc.Proofs.Statement.Definition
import UnitCalc.Proofs.Token.Restated
import UnitCalc.Statement.Parse

namespace UnitCalc

open List (Forall₂)
open SessionM

/-- A token of a numeric statement, which may assign. -/
def Token.isArithmetic (t : Token) : Bool :=
  t.isNumeric || t.isAssignment

/-- The tokens of a text without blocks. -/
def SessionM.tokens (text : List Char) : SessionM (List Token) := do
  let scan ← Scan.run text.length (fun _ _ => throw .blockNotOpened) true (Statement.split text).1
    (Statement.length_split text) {}
  return scan.tokens

/-- A text without blocks, inputs and a wanted unit is read into numeric tokens. -/
structure Session.ReadsNumbers (s : Session) (text : List Char) : Prop where
  simple : ∀ c ∈ (Statement.split text).1, c ≠ '$' ∧ c ≠ '?'
  alone : (Statement.split text).2 = none
  arithmetic : ∀ tokens, (outcome (SessionM.tokens text) s).1 = .ok tokens →
    ∀ t ∈ tokens, t.isArithmetic = true

/-- Reads a text to see whether it is numeric. -/
def Session.readsNumbers (s : Session) (text : List Char) : Bool :=
  (Statement.split text).1.all (fun c => c != '$' && c != '?') &&
    (Statement.split text).2.isNone &&
    match (outcome (SessionM.tokens text) s).1 with
    | .ok tokens => tokens.all Token.isArithmetic
    | .error _ => true

theorem Session.readsNumbers_iff {s : Session} {text : List Char} :
    s.readsNumbers text = true ↔ s.ReadsNumbers text := by
  have arithmetic : (match (outcome (SessionM.tokens text) s).1 with
      | .ok tokens => tokens.all Token.isArithmetic
      | .error _ => true) = true ↔ ∀ tokens, (outcome (SessionM.tokens text) s).1 = .ok tokens →
        ∀ t ∈ tokens, t.isArithmetic = true := by
    cases (outcome (SessionM.tokens text) s).1 <;> simp
  rw [readsNumbers, Bool.and_eq_true, Bool.and_eq_true, arithmetic, Option.isNone_iff_eq_none]
  simp only [List.all_eq_true, Bool.and_eq_true, bne_iff_ne]
  exact ⟨fun ⟨⟨simple, alone⟩, all⟩ => ⟨simple, alone, all⟩,
    fun reads => ⟨⟨reads.simple, reads.alone⟩, reads.arithmetic⟩⟩

instance (s : Session) (text : List Char) : Decidable (s.ReadsNumbers text) :=
  decidable_of_iff _ Session.readsNumbers_iff

namespace Token

variable {t u : Token} {s : Session}

theorem Restates.isNumeric_eq (restates : Restates u t) : u.isNumeric = t.isNumeric := by
  cases t with
  | operator | negation | multiFunction =>
    obtain ⟨x, rfl⟩ := restates
    rfl
  | _ =>
    cases restates
    rfl

theorem Restates.isArithmetic_eq (restates : Restates u t) : u.isArithmetic = t.isArithmetic := by
  rw [isArithmetic, isArithmetic, restates.isNumeric_eq, restates.isAssignment_eq]

theorem Restates.knows (restates : Restates u t) (knows : s.Knows t) : s.Knows u := by
  cases t with
  | operator | negation | multiFunction =>
    obtain ⟨x, rfl⟩ := restates
    trivial
  | _ =>
    cases restates
    exact knows

/-- A name of a numeric statement is no unit. -/
theorem noUnit_of_isArithmetic {cell : Option CellId} {name : String}
    (arithmetic : (Token.variable cell name).isArithmetic = true) : noUnit name = true := by
  rw [isArithmetic, Bool.or_eq_true] at arithmetic
  exact arithmetic.resolve_right nofun

end Token

namespace Header

variable {tokens rest : List Token} {header : Header}

theorem readParameters_ok {seen names : List String} {expectsName : Bool}
    (read : readParameters seen expectsName tokens = .ok (names, rest)) : rest <:+ tokens := by
  induction tokens generalizing seen expectsName with
  | nil => cases read
  | cons t tokens ih =>
    unfold readParameters at read
    repeat' split at read
    all_goals first
      | exact (ih read).trans (List.suffix_cons _ _)
      | cases read
    exact List.suffix_cons _ _

/-- Between the brackets of a header stands one name at least. -/
theorem readParameters_ne_nil {seen names : List String} {expectsName : Bool}
    (read : readParameters seen expectsName tokens = .ok (names, rest))
    (more : expectsName = true ∨ seen ≠ []) : names ≠ [] := by
  induction tokens generalizing seen expectsName with
  | nil => cases read
  | cons t tokens ih =>
    unfold readParameters at read
    repeat' split at read
    all_goals first
      | exact ih read (.inr (List.cons_ne_nil _ _))
      | exact ih read (.inl rfl)
      | cases read
    simpa using more

theorem parameters_ne_nil (read : ofTokens tokens = .ok header) : header.parameters ≠ [] := by
  unfold ofTokens at read
  split at read
  · next index name count rest =>
    cases parameters : readParameters [] true rest with
    | error e =>
      rw [parameters] at read
      cases read
    | ok r =>
      obtain ⟨names, behind⟩ := r
      rw [parameters] at read
      obtain _ | ⟨t, body⟩ := behind
      · cases read
      · change (if _ then _ else _) = _ at read
        split at read <;> cases read
        exact readParameters_ne_nil parameters (.inl rfl)
  · cases read

/-- The body of a definition stands behind its assignment, and a call begins it. -/
theorem ofTokens_ok (read : ofTokens tokens = .ok header) :
    ∃ name before t, Token.headerName? tokens = some name ∧ t.isAssignment = true ∧
      tokens = before ++ t :: header.body := by
  unfold ofTokens at read
  split at read
  · next index name count rest =>
    cases parameters : readParameters [] true rest with
    | error e =>
      rw [parameters] at read
      cases read
    | ok r =>
      obtain ⟨names, behind⟩ := r
      obtain ⟨before, rfl⟩ := readParameters_ok parameters
      rw [parameters] at read
      obtain _ | ⟨t, body⟩ := behind
      · cases read
      · change (if t.isAssignment = true then Except.ok _ else Except.error _) = _ at read
        split at read
        · next assigns =>
          cases read
          exact ⟨name, .call index name count :: .openBracket :: before, t, rfl, assigns, rfl⟩
        · cases read
  · cases read

end Header

namespace Token

variable {ts us : List Token}

theorem headerName?_eq (restated : Forall₂ Restates us ts) : headerName? us = headerName? ts := by
  cases restated with
  | nil => rfl
  | @cons u t _ _ restates _ =>
    cases t with
    | operator | negation | multiFunction =>
      obtain ⟨x, rfl⟩ := restates
      rfl
    | _ =>
      cases restates
      rfl

end Token

section Body

variable {read us tokens : List Token} {isDefinition : Bool} {header : Header}
  (checked : Token.check read = .ok (us, isDefinition))
  (restated : Forall₂ Token.Restates tokens read) (made : Header.ofTokens tokens = .ok header)

include checked restated made

/-- The body of a definition that the check accepts does not assign. -/
theorem Header.not_assignment_body : ∀ t ∈ header.body, t.isAssignment = false := by
  obtain ⟨name, before, first, begins, assigns, rfl⟩ := ofTokens_ok made
  have single := Token.countP_isAssignment_le checked (Token.headerName?_eq restated ▸ begins)
  rw [← Token.countP_isAssignment_eq restated, List.countP_append,
    List.countP_cons_of_pos assigns] at single
  have none : header.body.countP Token.isAssignment = 0 := by omega
  exact fun t within => Bool.eq_false_iff.2 (List.countP_eq_zero.1 none t within)

/-- So when only an assignment was not numeric, the body is. -/
theorem Header.forall_body (arithmetic : ∀ t ∈ read, t.isArithmetic = true) :
    ∀ t ∈ header.body, t.isNumeric = true := by
  intro t within
  have ordinary := not_assignment_body checked restated made t within
  obtain ⟨-, before, first, -, -, rfl⟩ := ofTokens_ok made
  obtain ⟨u, found, restates⟩ := Token.exists_of_forall₂ restated
    (List.mem_append_right before (List.mem_cons_of_mem first within))
  have allowed := arithmetic u found
  rw [← restates.isArithmetic_eq, Token.isArithmetic, ordinary, Bool.or_false] at allowed
  exact allowed

/-- The body of a definition that the check accepts does not call the function that is defined. -/
theorem Header.not_call_body {name : String} (begins : Token.headerName? read = some name) :
    ∀ index count, .call index name count ∉ header.body := by
  obtain ⟨-, before, first, -, assigns, rfl⟩ := ofTokens_ok made
  -- what was read is cut where the assignment stands
  obtain ⟨first', body, restates, rest, behind⟩ :=
    List.forall₂_cons_right_iff.1 (List.forall₂_drop_append _ _ _ restated.flip)
  have cut : read = read.take before.length ++ first' :: body := by
    rw [← behind, List.take_append_drop]
  rw [Token.Restates.isAssignment_eq restates] at assigns
  rw [cut] at checked begins
  intro index count within
  obtain ⟨t, found, restates⟩ := Token.exists_of_forall₂ rest.flip within
  exact Token.not_call_of_check checked begins assigns index count
    (Token.Restates.eq_call restates ▸ found)

end Body

namespace Session

variable {s : Session} {settings : Settings} {text : List Char} {scan : Scan}

/-- What a numeric statement is read into. -/
def IsArithmetic (statement : Statement) : Prop :=
  statement.unit = none ∧ ∀ t ∈ statement.program, t.isArithmetic = true

/-- Without units, checking and binding only restate what was read. -/
theorem IsNumeric.bind_restates (numeric : s.IsNumeric settings) {read us : List Token}
    {isDefinition : Bool} (arithmetic : ∀ t ∈ read, t.isArithmetic = true)
    (checked : Token.check read = .ok (us, isDefinition)) (place : Nat)
    {find : Option (String → Option ValueUnit)} (names : ∀ f ∈ find, f = s.unit?) :
    Forall₂ Token.Restates (Token.bind s.isAssigned find place us) read := by
  have filled := Token.check_restates checked
  refine Token.forall₂_trans Token.Restates.trans (Token.bind_restates place ?_) filled
  intro f found cell name within
  obtain ⟨t, read, restates⟩ := Token.exists_of_forall₂ filled within
  have allowed := arithmetic t read
  rw [← restates.isArithmetic_eq] at allowed
  rw [names f found]
  exact numeric.compilation name (Token.noUnit_of_isArithmetic allowed)

/-- Tokens that the session knows are made a statement. -/
theorem Sound.ofScan (sound : s.Sound settings) (known : scan.Consists s.Knows)
    (arithmetic : ∀ t ∈ scan.tokens, t.isArithmetic = true) :
    (outcome (ofScan text none scan) s).2.Sound settings ∧
      ∀ statement, (outcome (ofScan text none scan) s).1 = .ok statement →
        IsArithmetic statement := by
  unfold SessionM.ofScan
  by_cases empty : scan.tokens.isEmpty = true
  · rw [if_pos empty]
    exact ⟨sound, nofun⟩
  rw [if_neg empty]
  cases checked : Token.check scan.tokens with
  | error e =>
    exact ⟨sound, nofun⟩
  | ok r =>
    obtain ⟨us, isDefinition⟩ := r
    beta_reduce
    rw [outcome_bind_ok (outcome_ofExcept _ s)]
    simp only
    rw [outcome_bind_ok (outcome_get s)]
    split
    · exact ⟨sound, nofun⟩
    have named : outcome (unitNames isDefinition) s =
      (.ok (if isDefinition || s.inBlock || s.isPlotting then none else some s.unit?), s) := rfl
    rw [outcome_bind_ok named, outcome_bind_ok (outcome_get s)]
    have restated : Forall₂ Token.Restates (Token.bind s.isAssigned
        (if isDefinition || s.inBlock || s.isPlotting then none else some s.unit?)
        scan.assignment us) scan.tokens := by
      refine sound.bind_restates arithmetic checked _ fun f found => ?_
      split at found <;> cases found
      rfl
    generalize Token.bind s.isAssigned _ scan.assignment us = tokens at restated ⊢
    split
    · -- the body of the definition is numeric
      have defined : (outcome (SessionM.define tokens none) s).2.Sound settings := by
        refine sound.define fun header made t within => ⟨?_, ?_⟩
        · exact Header.forall_body checked restated made arithmetic t within
        · obtain ⟨name, before, first, -, -, rfl⟩ := Header.ofTokens_ok made
          obtain ⟨u, found, restates⟩ := Token.exists_of_forall₂ restated
            (List.mem_append_right before (List.mem_cons_of_mem first within))
          exact restates.knows (known u (List.mem_reverse.1 found))
      rw [outcome_bind]
      cases ended : outcome (SessionM.define tokens none) s with
      | mk r s' =>
        rw [ended] at defined
        cases r with
        | error e => exact ⟨defined, nofun⟩
        | ok index =>
          refine ⟨defined, fun statement made => ?_⟩
          cases made
          exact ⟨rfl, List.forall_mem_nil _⟩
    · cases ordered : Postfix.ofTokens tokens with
      | error e => exact ⟨sound, nofun⟩
      | ok program =>
        rw [outcome_bind_ok (outcome_ofExcept _ s)]
        refine ⟨sound, fun statement made => ?_⟩
        cases made
        refine ⟨rfl, Postfix.forall_ofTokensFrom (fun _ _ _ kept => kept) (fun t within => ?_)
          (List.forall_mem_nil _) ordered⟩
        obtain ⟨u, found, restates⟩ := Token.exists_of_forall₂ restated within
        exact restates.isArithmetic_eq.trans (arithmetic u found)

/-- Reading a numeric statement leaves a session sound. -/
theorem Sound.parseStatement (sound : s.Sound settings) (reads : s.ReadsNumbers text) :
    (outcome (parseStatement text true) s).2.Sound settings ∧
      ∀ statement, (outcome (parseStatement text true) s).1 = .ok statement →
        IsArithmetic statement := by
  have names : s.NamesFunctions := sound.functionNamed
  have fresh : Scan.Consists s.Knows {} := List.forall_mem_nil _
  have unit : outcome (parseUnit none) s = (.ok none, s) := rfl
  -- A numeric text has no blocks, so how blocks are read does not matter.
  rw [SessionM.parseStatement, reads.alone, outcome_bind_ok unit, outcome_bind,
    Scan.run_congr reading_extends.scanning (fun _ _ => throw .blockNotOpened) reads.simple _ fresh names]
  have adds : Adds Extends s (fun s scan => scan.Consists s.Knows) (Scan.run text.length
      (fun _ _ => throw .blockNotOpened) true (Statement.split text).1
      (Statement.length_split text) {}) :=
    Scan.run_adds reading_extends.scanning fresh names (fun sign => absurd rfl (reads.simple _ sign).1)
      (fun sign => absurd rfl (reads.simple _ sign).2) _
  have arithmetic := reads.arithmetic
  unfold SessionM.tokens at arithmetic
  unfold Adds at adds
  rw [outcome_bind] at arithmetic
  cases scanned : outcome (Scan.run text.length (fun _ _ => throw .blockNotOpened) true
      (Statement.split text).1 (Statement.length_split text) {}) s with
  | mk r s' =>
    rw [scanned] at adds arithmetic
    have sound' := adds.1.sound sound
    cases r with
    | error e => exact ⟨sound', nofun⟩
    | ok scan => exact sound'.ofScan (adds.2 scan rfl) (arithmetic scan.tokens rfl)

end Session

end UnitCalc
