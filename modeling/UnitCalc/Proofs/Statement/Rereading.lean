/-
# Texts that are read again

An expression may be evaluated as it stands, compiled over named parameters, or made the body of a
function. Each time it is read anew, into the same tokens apart from cells and from what stands in
front. What becomes of them differs in one point: only the statement itself resolves names to units.

## Main definitions

* `Session.ReadsInto`: what a text without blocks and inputs is read into.

## Main results

* `SessionM.parseStatement_ok`: a statement that was read.
* `Session.ReadsInto.expression`: the statement and the expression over parameters.
* `Session.ReadsInto.definition`: the expression over parameters and the body of a function.
-/

import UnitCalc.Proofs.Session.Values
import UnitCalc.Proofs.Statement.Body
import UnitCalc.Proofs.Statement.Parsed

namespace UnitCalc

open SessionM
open Token (withoutCell)

/-! ## Statements that were read -/

/-- An expression without blocks and inputs is read into tokens that pass the check. -/
structure Session.ReadsInto (s : Session) (allowed : Bool) (text : List Char) (scan : Scan)
    (us : List Token) (isDefinition : Bool) (s' : Session) : Prop where
  scanned : outcome (Scan.run text.length (fun _ _ => throw .blockNotOpened) allowed
    (Statement.split text).1 (Statement.length_split text) {}) s = (.ok scan, s')
  checked : Token.check scan.tokens = .ok (us, isDefinition)

/-- A text with neither blocks nor inputs in its expression. -/
def Statement.IsSimple (text : List Char) : Prop :=
  ∀ c ∈ (split text).1, c ≠ '$' ∧ c ≠ '?'

theorem Statement.IsSimple.definitionText {f : String} {names : List String} {text : String}
    (simple : IsSimple text.toList) (isName : Scan.isName f = true)
    (areNames : ∀ n ∈ names, Scan.isName n = true) :
    IsSimple (Statement.definitionText f names text).toList := by
  have words : ∀ c, isWordChar c = true → c ≠ '$' ∧ c ≠ '?' := by
    have signs : isWordChar '$' = false ∧ isWordChar '?' = false := by decide +kernel
    refine fun c word => ⟨?_, ?_⟩
    · rintro rfl
      rw [signs.1] at word
      cases word
    · rintro rfl
      rw [signs.2] at word
      cases word
  have header := forall_headerChars (P := fun c => c ≠ '$' ∧ c ≠ '?') (by decide) words isName
    areNames
  unfold IsSimple
  rw [split_definitionText text isName areNames]
  have all := List.forall_mem_append.2 ⟨header, simple⟩
  simpa using all

namespace SessionM

variable {s s' : Session} {text : List Char} {allowed : Bool} {statement : Statement}
  {unit : Option ValueUnit} {scan : Scan}

/-- What tokens are made: a program, or the function that they define. -/
inductive Makes (s : Session) (scan : Scan) (us : List Token) :
    Bool → Statement → Session → Prop where
  | program {statement : Statement} (value : statement.function = none)
    (ordered : Postfix.ofTokens (Token.bind s.isAssigned
      (if s.inBlock || s.isPlotting then none else some s.unit?) scan.assignment us) =
        .ok statement.program) : Makes s scan us false statement s
  | function {statement : Statement} {index : Nat} {s' : Session}
    (defined : statement.function = some index)
    (ended : outcome (define (Token.bind s.isAssigned none scan.assignment us) statement.unit) s =
      (.ok index, s')) : Makes s scan us true statement s'

theorem ofScan_ok (ended : outcome (ofScan text unit scan) s = (.ok statement, s')) :
    statement.unit = unit ∧ ∃ us isDefinition, Token.check scan.tokens = .ok (us, isDefinition) ∧
      Makes s scan us isDefinition statement s' := by
  unfold ofScan at ended
  split at ended
  · cases ended
  obtain ⟨⟨us, isDefinition⟩, checked, ended⟩ := exists_of_ofExcept_ok ended
  simp only at ended
  rw [outcome_bind_ok (outcome_get s)] at ended
  split at ended
  · cases ended
  have named : outcome (unitNames isDefinition) s =
    (.ok (if isDefinition || s.inBlock || s.isPlotting then none else some s.unit?), s) := rfl
  rw [outcome_bind_ok named, outcome_bind_ok (outcome_get s)] at ended
  cases isDefinition with
  | true =>
    obtain ⟨index, s₁, defined, ended⟩ := exists_of_bind_ok ended
    cases ended
    exact ⟨rfl, us, true, checked, .function rfl defined⟩
  | false =>
    obtain ⟨program, ordered, ended⟩ := exists_of_ofExcept_ok ended
    cases ended
    exact ⟨rfl, us, false, checked, .program rfl (by simpa using ordered)⟩

/-- Tokens that pass the check make a statement of the program that they are ordered into. -/
theorem outcome_ofScan {us : List Token} (written : scan.tokens ≠ [])
    (checked : Token.check scan.tokens = .ok (us, false)) :
    outcome (ofScan text unit scan) s =
      ((Postfix.ofTokens (Token.bind s.isAssigned
        (if s.inBlock || s.isPlotting then none else some s.unit?) scan.assignment us)).map
          fun program => ⟨program, unit, none, String.ofList text⟩, s) := by
  have named : outcome (unitNames false) s =
      (.ok (if false || s.inBlock || s.isPlotting then none else some s.unit?), s) := rfl
  rw [ofScan, if_neg (by simpa using written), checked, outcome_bind_ok (outcome_ofExcept _ _),
    outcome_bind_ok (outcome_get _)]
  simp only [Bool.false_and, Bool.false_eq_true, if_false]
  rw [outcome_bind_ok named, outcome_bind_ok (outcome_get _), Bool.false_or]
  cases Postfix.ofTokens (Token.bind s.isAssigned
    (if s.inBlock || s.isPlotting then none else some s.unit?) scan.assignment us) <;> rfl

/-- A statement without blocks and inputs that was read. -/
theorem parseStatement_ok (names : s.NamesFunctions) (simple : Statement.IsSimple text)
    (ended : outcome (parseStatement text allowed) s = (.ok statement, s')) :
    outcome (parseUnit (Statement.split text).2) s = (.ok statement.unit, s) ∧
      ∃ scan us isDefinition s₁, s.ReadsInto allowed text scan us isDefinition s₁ ∧
        Makes s₁ scan us isDefinition statement s' := by
  have fresh : Scan.Consists s.Knows {} := List.forall_mem_nil _
  obtain ⟨unit, same⟩ := outcome_parseUnit (Statement.split text).2 s
  rw [parseStatement, outcome_bind, same] at ended
  cases unit with
  | error e => cases ended
  | ok unit =>
    dsimp only at ended
    -- Without blocks it does not matter how they would be made.
    rw [outcome_bind, Scan.run_congr Session.reading_extends.scanning (fun _ _ => throw .blockNotOpened)
      simple _ fresh names, ← outcome_bind] at ended
    obtain ⟨scan, s₁, scanned, ended⟩ := exists_of_bind_ok ended
    obtain ⟨rfl, us, isDefinition, checked, makes⟩ := ofScan_ok ended
    exact ⟨same, scan, us, isDefinition, s₁, ⟨scanned, checked⟩, makes⟩

end SessionM

/-! ## Tokens of the session -/

/-- A token whose cell and function belong to the session, and that is no block. -/
def Session.KnowsPlain (s : Session) (t : Token) : Prop :=
  s.Knows t ∧ t.blockIndex? = none

namespace Session.ReadsInto

variable {s s' : Session} {text : List Char} {allowed : Bool} {scan : Scan} {us : List Token}
  {isDefinition : Bool}

/-- Reading adds cells for new names, and all tokens are those of the session. -/
theorem adds (reads : s.ReadsInto allowed text scan us isDefinition s') (names : s.NamesFunctions)
    (simple : Statement.IsSimple text) : s.AddsCells s' ∧ ∀ t ∈ us, s'.KnowsPlain t := by
  have fresh : Scan.Consists (fun t => s.Knows t ∧ t.blockIndex? = none) {} := List.forall_mem_nil _
  have added : Adds AddsCells s
      (fun s scan => scan.Consists fun t => s.Knows t ∧ t.blockIndex? = none)
      (Scan.run text.length (fun _ _ => throw .blockNotOpened) allowed (Statement.split text).1
        (Statement.length_split text) {}) :=
    Scan.run_adds reading_addsCells.scanning fresh names (fun sign => absurd rfl (simple _ sign).1)
      (fun sign => absurd rfl (simple _ sign).2) (Statement.length_split text)
  unfold Adds at added
  rw [reads.scanned] at added
  refine ⟨added.1, fun u within => ?_⟩
  obtain ⟨t, read, restates⟩ := Token.exists_of_forall₂ (Token.check_restates reads.checked) within
  obtain ⟨knows, noBlock⟩ := added.2 scan rfl t (List.mem_reverse.1 read)
  exact ⟨restates.knows knows, restates.blockIndex?_eq.trans noBlock⟩

/-- Where a text may not assign, it does not. -/
theorem ordinary (reads : s.ReadsInto false text scan us isDefinition s')
    (simple : Statement.IsSimple text) : ∀ t ∈ scan.tokens, t.isAssignment = false := by
  have start : Scan.Alike [] {} {} := ⟨rfl, rfl, rfl, List.forall_mem_nil _⟩
  rcases Scan.run_alike start nofun (.refl s) simple reads.scanned reads.scanned with
    alike | ⟨more, -⟩
  · exact fun t within => alike.ordinary t (List.mem_reverse.1 within)
  · exact absurd rfl more

theorem isDefinition_eq (reads : s.ReadsInto false text scan us isDefinition s')
    (simple : Statement.IsSimple text) : isDefinition = false :=
  Token.isDefinition_of_check (reads.ordinary simple) reads.checked

/-- A text that may not assign is read again in the same way, also where it may. -/
theorem expression {sA sA' : Session} {scanA : Scan} {usA : List Token} {isDefinitionA : Bool}
    (reads : s.ReadsInto false text scan us isDefinition s')
    (readsA : sA.ReadsInto allowed text scanA usA isDefinitionA sA')
    (vocabulary : s.SameVocabulary sA)
    (simple : Statement.IsSimple text) :
    isDefinitionA = false ∧ usA.map withoutCell = us.map withoutCell := by
  have start : Scan.Alike [] {} {} := ⟨rfl, rfl, rfl, List.forall_mem_nil _⟩
  rcases Scan.run_alike start nofun vocabulary simple reads.scanned readsA.scanned with
    alike | ⟨more, -⟩
  · have same : scanA.tokens.map withoutCell = scan.tokens.map withoutCell := by
      rw [Scan.tokens, Scan.tokens, List.map_reverse, List.map_reverse, alike.reversed,
        List.append_nil]
    have checked := Token.check_alike same (reads.ordinary simple) reads.checked readsA.checked
    refine ⟨Token.isDefinition_of_check (fun t within => ?_) readsA.checked, checked⟩
    obtain ⟨u, read, erased⟩ := List.mem_map.1 (same ▸ List.mem_map_of_mem within)
    rw [← Token.isAssignment_withoutCell, ← erased, Token.isAssignment_withoutCell]
    exact reads.ordinary simple u read
  · exact absurd rfl more

section Definition

variable {f : String} {names : List String} {text : String} {sD sD' : Session} {scanD : Scan}
  {usD : List Token} {isDefinitionD : Bool} {isAssigned isAssigned' : CellId → Bool}
  {place place' : Nat} {header : Header}
  (reads : s.ReadsInto false text.toList scan us isDefinition s')
  (readsD : sD.ReadsInto true (Statement.definitionText f names text).toList scanD usD isDefinitionD
    sD')
  (vocabulary : s.SameVocabulary sD) (simple : Statement.IsSimple text.toList)
  (isName : Scan.isName f = true) (areNames : ∀ n ∈ names, Scan.isName n = true)

include reads readsD vocabulary simple isName areNames

/-- The tokens of a definition are those of its header and of its body, unless the text of the body
begins with a unit that is about to be defined. -/
theorem tokens_definition : scan.HasNewUnit ∨ ∃ (first : Token) (parameters : List Token),
    parameters.map withoutCell = names.map (.variable none) ∧
      scanD.tokens.map withoutCell =
        (Header.tokens first parameters).map withoutCell ++ scan.tokens.map withoutCell := by
  have within := Statement.length_split (Statement.definitionText f names text).toList
  have chars : (Statement.split (Statement.definitionText f names text).toList).1 =
      f.toList ++ '(' :: (Statement.parameterChars names ++
        ')' :: ' ' :: '=' :: ' ' :: (Statement.split text.toList).1) := by
    rw [Statement.split_definitionText text isName areNames]
  have long := chars ▸ within
  have within' : (Statement.split text.toList).1.length ≤
      (Statement.definitionText f names text).toList.length := by
    refine Nat.le_trans ?_ long
    simp only [List.length_append, List.length_cons]
    omega
  have scanned := readsD.scanned
  rw [Scan.run_chars chars within long] at scanned
  obtain ⟨first, parameters, assignment, s₁, -, named, keeps, ran⟩ :=
    Scan.run_header isName areNames long within' (s := sD)
  rw [ran] at scanned
  -- the body begins behind the assignment
  have start : Scan.Alike ((Header.tokens first parameters).reverse.map withoutCell) {}
      { reversed := (Header.tokens first parameters).reverse, assignment } :=
    ⟨rfl, rfl, rfl, List.forall_mem_nil _⟩
  have front : ∀ t ∈ ((Header.tokens first parameters).reverse.map withoutCell).head?,
      t.isAssignment = true := by
    have sign : (Token.ofSymbol '=').isAssignment = true := rfl
    simpa [Header.tokens] using sign
  -- The text alone is read by the first scan, and behind the header by the second one.
  rcases Scan.run_alike start front (vocabulary.trans keeps) simple reads.scanned scanned with
    alike | ⟨-, hasNew⟩
  · refine .inr ⟨first, parameters, named, ?_⟩
    rw [Scan.tokens, Scan.tokens, List.map_reverse, alike.reversed]
    simp
  · exact .inl hasNew

/-- The body of a definition is read like the text alone, unless that begins with a unit that is
about to be defined. -/
theorem definition (made : Header.ofTokens (Token.bind isAssigned' none place' usD) = .ok header) :
    (∃ t ∈ us, t.isNewUnit = true) ∨ header.parameters = names ∧ names.Nodup ∧
      header.body.map withoutCell = (Token.bind isAssigned none place us).map withoutCell := by
  rcases tokens_definition reads readsD vocabulary simple isName areNames with
    ⟨t, read, isNew⟩ | ⟨first, parameters, named, same⟩
  -- A unit that is about to be defined passes the check and stays.
  · left
    obtain ⟨u, kept, restates⟩ := Token.exists_of_forall₂ (Token.check_restates reads.checked).flip
      (List.mem_reverse.2 read)
    have same : Token.Restates u t := restates
    cases t with
    | unit value name =>
      cases same
      exact ⟨_, kept, isNew⟩
    | _ => cases isNew
  · right
    obtain ⟨front, behind, tokens, begins, rest⟩ := List.map_eq_append_iff.1 same
    obtain ⟨first', parameters', rfl, -, named'⟩ := Header.exists_tokens begins
    have restated : List.Forall₂ Token.Restates (Token.bind isAssigned' none place' usD)
        scanD.tokens := Token.forall₂_trans Token.Restates.trans
      (Token.bind_restates place' nofun) (Token.check_restates readsD.checked)
    obtain ⟨name, -, -, called, -, -⟩ := Header.ofTokens_ok made
    rw [Token.headerName?_eq restated, tokens] at called
    have checked := readsD.checked
    rw [tokens] at checked
    rw [named] at named'
    cases first' with
    | call index name count =>
      have checked' := Token.check_behind named' rest (reads.ordinary simple) reads.checked checked
      exact Header.ofTokens_header named' (Token.bind_header isAssigned isAssigned' place place' rfl
        named' checked') made
    | _ => cases called

end Definition

end Session.ReadsInto

end UnitCalc
