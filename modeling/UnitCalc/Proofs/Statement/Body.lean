/-
# Bodies of definitions

Behind its header the body of a definition is checked and bound as if it stood alone, so its
program is that of the expression, apart from the cells of names. The header gives the names of
the parameters.

## Main results

* `Token.check_behind`: checking a definition.
* `Header.ofTokens_header`: the parts of a definition.
-/

import UnitCalc.Proofs.Statement.Header

namespace UnitCalc

open SessionM
open Token (mapCell withoutCell)

/-! ## The check -/

namespace Legality

variable {header : Option String} {previous : Option Token} {ts us : List Token} {s final : State}

/-- A token of a list of parameters. -/
def IsListed (t : Token) : Prop :=
  (∃ cell name, t = .variable cell name) ∨ t = .separator

/-- Parameters and separators are checked one after the other. -/
theorem run_listed (listed : ∀ t ∈ ts, IsListed t)
    (ran : run header previous (ts ++ us) s = .ok final) :
    ∃ s' previous', run header previous' us s' = .ok final ∧
      s'.checked.toList = s.checked.toList ++ ts ∧ s'.depth = s.depth ∧
      s'.openCalls = s.openCalls ∧ s'.isDefinition = s.isDefinition := by
  induction ts generalizing previous s with
  | nil => exact ⟨s, previous, ran, by simp, rfl, rfl, rfl⟩
  | cons t ts ih =>
    rw [List.forall_mem_cons] at listed
    obtain ⟨s₁, stepped, ran⟩ := run_cons ran
    obtain ⟨-, a, advanced, rfl⟩ := step_ok stepped
    obtain ⟨s', previous', behind, checked, depth, openCalls, isDefinition⟩ := ih listed.2 ran
    rcases listed.1 with ⟨cell, name, rfl⟩ | rfl <;> cases advanced <;>
      exact ⟨s', previous', behind, by simp [checked], depth, openCalls, isDefinition⟩

theorem isListed_intersperse (listed : ∀ t ∈ ts, IsListed t) :
    ∀ t ∈ ts.intersperse .separator, IsListed t := by
  induction ts with
  | nil => exact List.forall_mem_nil _
  | cons t ts ih =>
    rw [List.forall_mem_cons] at listed
    cases ts with
    | nil => exact List.forall_mem_cons.2 ⟨listed.1, List.forall_mem_nil _⟩
    | cons u us =>
      rw [List.intersperse_cons_cons, List.forall_mem_cons, List.forall_mem_cons]
      exact ⟨listed.1, .inr rfl, ih listed.2⟩

theorem isListed_parameters {parameters : List Token} {names : List String}
    (named : parameters.map withoutCell = names.map (.variable none)) :
    ∀ t ∈ parameters, IsListed t := by
  intro t within
  have erased : t.withoutCell ∈ names.map (Token.variable none) := named ▸ List.mem_map_of_mem within
  obtain ⟨name, -, same⟩ := List.mem_map.1 erased
  rcases Token.eq_or_variable (u := .variable none name) same.symm with rfl | ⟨cell, _, name', rfl, -⟩
  · exact .inl ⟨none, name, rfl⟩
  · exact .inl ⟨cell, name', rfl⟩

/-- Behind the header of a definition the check begins anew. -/
theorem run_header_behind {index : Option Nat} {f : String} {count : Nat} {parameters : List Token}
    {names : List String} (named : parameters.map withoutCell = names.map (.variable none))
    (ran : run (some f) none (Header.tokens (.call index f count) parameters ++ ts) {} = .ok final) :
    ∃ s' previous', run (some f) previous' ts s' = .ok final ∧ s'.isDefinition = true ∧
      State.Behind ((Header.tokens (.call index f count) parameters).map withoutCell) {} s' := by
  have tokens : Header.tokens (.call index f count) parameters ++ ts = .call index f count ::
      .openBracket :: (parameters.intersperse .separator ++ (.closeBracket :: .ofSymbol '=' :: ts)) := by
    simp [Header.tokens]
  rw [tokens] at ran
  obtain ⟨s₁, first, ran⟩ := run_cons ran
  obtain ⟨s₂, second, ran⟩ := run_cons ran
  obtain ⟨-, a₁, called, rfl⟩ := step_ok first
  obtain ⟨-, a₂, opened, rfl⟩ := step_ok second
  obtain ⟨s₃, previous, ran, checked, depth, openCalls, isDefinition⟩ :=
    run_listed (isListed_intersperse (isListed_parameters named)) ran
  obtain ⟨s₄, third, ran⟩ := run_cons ran
  obtain ⟨s₅, fourth, ran⟩ := run_cons ran
  obtain ⟨-, a₄, closed, rfl⟩ := step_ok third
  obtain ⟨-, a₅, assigned, rfl⟩ := step_ok fourth
  -- the call comes first, so it calls nothing yet
  have begun : a₁.checked = #[] ∧ a₁.depth = 0 ∧ a₁.openCalls = [] ∧ a₁.isDefinition = false := by
    simp only [advance, call] at called
    repeat' split at called
    all_goals cases called
    all_goals exact ⟨rfl, rfl, rfl, rfl⟩
  cases opened
  obtain ⟨checked₁, depth₁, openCalls₁, isDefinition₁⟩ := begun
  simp only [checked₁, depth₁, openCalls₁, isDefinition₁] at checked depth openCalls isDefinition
  simp only [advance, closeBracket, depth, openCalls] at closed
  cases closed
  simp only [advance, Token.ofSymbol, beq_self_eq_true, if_true, assignment, Option.isSome_some,
    isDefinition, Bool.not_false, Bool.and_self] at assigned
  cases assigned
  refine ⟨_, _, ran, rfl, ?_, rfl, rfl, rfl⟩
  simp [checked, Header.tokens]

end Legality

namespace Token

variable {ts us ts' us' parameters : List Token} {isDefinition isDefinition' : Bool}
  {names : List String}

/-- Two lists that differ in cells are checked alike. -/
theorem check_alike (same : ts'.map withoutCell = ts.map withoutCell)
    (ordinary : ∀ t ∈ ts, t.isAssignment = false) (checked : check ts = .ok (us, isDefinition))
    (checked' : check ts' = .ok (us', isDefinition')) : us'.map withoutCell = us.map withoutCell := by
  obtain ⟨final, ran, finished⟩ := check_ok checked
  obtain ⟨final', ran', finished'⟩ := check_ok checked'
  have start : Legality.State.Behind [] {} {} := ⟨rfl, rfl, rfl, rfl⟩
  rw [(Legality.eq_of_finish finished).1, (Legality.eq_of_finish finished').1]
  exact (Legality.run_behind start same ordinary ran ran').checked

/-- The body of a definition is checked like the list alone. -/
theorem check_behind {index : Option Nat} {f : String} {count : Nat}
    (named : parameters.map withoutCell = names.map (.variable none))
    (same : ts'.map withoutCell = ts.map withoutCell)
    (ordinary : ∀ t ∈ ts, t.isAssignment = false) (checked : check ts = .ok (us, isDefinition))
    (checked' : check (Header.tokens (.call index f count) parameters ++ ts') = .ok (us', isDefinition')) :
    us'.map withoutCell =
      (Header.tokens (.call index f count) parameters ++ us).map withoutCell := by
  obtain ⟨final, ran, finished⟩ := check_ok checked
  obtain ⟨final', ran', finished'⟩ := check_ok checked'
  obtain ⟨s', previous', ran', -, start⟩ := Legality.run_header_behind named ran'
  rw [(Legality.eq_of_finish finished).1, (Legality.eq_of_finish finished').1, List.map_append]
  exact (Legality.run_behind start same ordinary ran ran').checked

/-! ## Binding -/

/-- Without names of units, binding orders operators and tightens runs. -/
theorem bind_none (isAssigned : CellId → Bool) (place : Nat) (ts : List Token) :
    bind isAssigned none place ts = tighten (ts.map ordered) :=
  congrArg tighten (List.ext_getElem (by simp) (by simp))

theorem map_ordered_withoutCell (ts : List Token) :
    (ts.map ordered).map withoutCell = (ts.map withoutCell).map ordered := by
  simp [ordered_withoutCell]

/-- Lists that differ in cells are bound alike. -/
theorem bind_alike_none (isAssigned isAssigned' : CellId → Bool) (place place' : Nat)
    (same : us'.map withoutCell = us.map withoutCell) :
    (bind isAssigned' none place' us').map withoutCell =
      (bind isAssigned none place us).map withoutCell := by
  rw [bind_none, bind_none, ← tighten_withoutCell, ← tighten_withoutCell, map_ordered_withoutCell,
    map_ordered_withoutCell, same]

/-- The header of a definition contains no unit, so it does not change the orders of the body. -/
theorem bind_header (isAssigned isAssigned' : CellId → Bool) (place place' : Nat) {first : Token}
    (noUnit : first.isUnit = false) (named : parameters.map withoutCell = names.map (.variable none))
    (same : us'.map withoutCell = (Header.tokens first parameters ++ us).map withoutCell) :
    (bind isAssigned' none place' us').map withoutCell =
      ((Header.tokens first parameters).map ordered ++ bind isAssigned none place us).map
        withoutCell := by
  rw [bind_alike_none isAssigned isAssigned' place place' same, bind_none, bind_none, List.map_append,
    tighten_append]
  intro t within
  obtain ⟨u, inside, rfl⟩ := List.mem_map.1 within
  have plain : u.isUnit = false := by
    simp only [Header.tokens, List.mem_cons, List.mem_append, List.not_mem_nil, or_false] at inside
    rcases inside with rfl | rfl | inside | rfl | rfl
    · exact noUnit
    · rfl
    · rcases Legality.isListed_intersperse (Legality.isListed_parameters named) u inside with
        ⟨cell, name, rfl⟩ | rfl <;> rfl
    · rfl
    · rfl
  cases u <;> first | rfl | cases plain

end Token

/-! ## The parts -/

namespace Header

variable {seen names : List String} {expectsName : Bool} {ts rest : List Token}

theorem readParameters_mapCell (f : Option CellId → Option CellId) (seen : List String)
    (expectsName : Bool) (ts : List Token) : readParameters seen expectsName (ts.map (mapCell f)) =
      (readParameters seen expectsName ts).map fun r => (r.1, r.2.map (mapCell f)) := by
  induction ts generalizing seen expectsName with
  | nil => rfl
  | cons t ts ih =>
    cases expectsName with
    | true =>
      cases t with
      | «variable» cell name | unit value name =>
        simp only [List.map_cons, mapCell, readParameters, ih]
        split <;> rfl
      | _ => rfl
    | false =>
      cases t with
      | separator => exact ih seen true
      | _ => rfl

/-- Names with separators between them are read as parameters, when no name is repeated. -/
theorem readParameters_names {n : String} {r : List String × List Token} (distinct : seen.Nodup)
    (read : readParameters seen true
      (((n :: names).map (Token.variable none)).intersperse .separator ++ .closeBracket :: rest) =
        .ok r) :
    r = (seen.reverse ++ n :: names, rest) ∧ (seen.reverse ++ n :: names).Nodup := by
  -- The induction is on the names behind the first one; `seen` holds those that were read before.
  induction names generalizing seen n with
  | nil =>
    rw [List.map_singleton, List.intersperse_singleton, List.singleton_append, readParameters] at read
    split at read
    · cases read
    · next new =>
      cases read
      rw [List.contains_iff_mem] at new
      have more : (n :: seen).reverse.Nodup := by
        rw [List.nodup_reverse, List.nodup_cons]
        exact ⟨new, distinct⟩
      rw [List.reverse_cons] at more
      exact ⟨by rw [List.reverse_cons], more⟩
  | cons n' names ih =>
    rw [List.map_cons, List.map_cons, List.intersperse_cons_cons, List.cons_append, List.cons_append,
      readParameters] at read
    split at read
    · cases read
    · next new =>
      rw [List.contains_iff_mem] at new
      obtain ⟨same, more⟩ := ih (List.nodup_cons.2 ⟨new, distinct⟩) read
      rw [List.reverse_cons, List.append_assoc, List.singleton_append] at same more
      exact ⟨same, more⟩

/-- The parts of a definition do not depend on cells. -/
theorem ofTokens_mapCell (f : Option CellId → Option CellId) (ts : List Token) :
    ofTokens (ts.map (mapCell f)) =
      (ofTokens ts).map fun header => { header with body := header.body.map (mapCell f) } := by
  obtain _ | ⟨t, _ | ⟨u, rest⟩⟩ := ts
  · rfl
  · cases t <;> rfl
  · cases t with
    | call index name count =>
      cases u with
      | openBracket =>
        simp only [List.map_cons, mapCell, ofTokens, readParameters_mapCell]
        cases readParameters [] true rest with
        | error e => rfl
        | ok r =>
          obtain ⟨names, _ | ⟨t, body⟩⟩ := r
          · rfl
          · change (if (t.mapCell f).isAssignment = true then _ else _) =
              Except.map _ (if t.isAssignment = true then _ else _)
            rw [Token.isAssignment_mapCell]
            split <;> rfl
      | _ => rfl
    | _ => rfl

theorem ofTokens_withoutCell (ts : List Token) : ofTokens (ts.map withoutCell) =
    (ofTokens ts).map fun header => { header with body := header.body.map withoutCell } := by
  rw [Token.withoutCell_eq_mapCell]
  exact ofTokens_mapCell _ ts

theorem map_intersperse (f : Token → Token) (between : Token) (ts : List Token) :
    (ts.intersperse between).map f = (ts.map f).intersperse (f between) := by
  induction ts with
  | nil => rfl
  | cons t ts ih =>
    cases ts with
    | nil => rfl
    | cons u us => simp [List.intersperse_cons_cons, ih]

/-- The parts of a definition whose parameters have no cells yet. -/
theorem ofTokens_names {index : Option Nat} {f : String} {count : Nat} {t : Token}
    {us : List Token} {header : Header}
    (made : ofTokens (.call index f count :: .openBracket ::
      ((names.map (Token.variable none)).intersperse .separator ++ .closeBracket :: t :: us)) =
        .ok header) : header.parameters = names ∧ names.Nodup ∧ header.body = us := by
  rw [ofTokens] at made
  cases names with
  | nil => cases made
  | cons n names =>
    cases read : readParameters [] true
        (((n :: names).map (Token.variable none)).intersperse .separator ++ .closeBracket :: t :: us) with
    | error e =>
      rw [read] at made
      cases made
    | ok r =>
      obtain ⟨rfl, distinct⟩ := readParameters_names List.nodup_nil read
      rw [read] at made
      change (if t.isAssignment = true then Except.ok _ else Except.error _) = _ at made
      split at made <;> cases made
      exact ⟨rfl, distinct, rfl⟩

/-- The parts of a definition. -/
theorem ofTokens_header {first : Token} {parameters : List Token} {us : List Token}
    {header : Header} (named : parameters.map withoutCell = names.map (.variable none))
    (same : ts.map withoutCell =
      ((tokens first parameters).map Token.ordered ++ us).map withoutCell)
    (made : ofTokens ts = .ok header) :
    header.parameters = names ∧ names.Nodup ∧ header.body.map withoutCell = us.map withoutCell := by
  have listed : ((parameters.intersperse .separator).map Token.ordered).map withoutCell =
      (names.map (Token.variable none)).intersperse .separator := by
    have ordered : ((parameters.map Token.ordered).map withoutCell) =
        names.map (Token.variable none) := by
      rw [Token.map_ordered_withoutCell, named, List.map_map]
      rfl
    rw [map_intersperse, map_intersperse, ordered]
    rfl
  have erased := ofTokens_withoutCell ts
  rw [made, same] at erased
  simp only [tokens, List.map_append, List.map_cons, listed, List.append_assoc, List.cons_append]
    at erased
  cases first with
  | call index f count => exact ofTokens_names erased
  | _ => cases erased

/-! ## The shape -/

/-- A list that differs from a list of parameters in cells is one. -/
theorem exists_intersperse {parameters : List Token}
    (same : ts.map withoutCell = (parameters.intersperse .separator).map withoutCell) :
    ∃ parameters' : List Token, ts = parameters'.intersperse .separator ∧
      parameters'.map withoutCell = parameters.map withoutCell := by
  induction parameters generalizing ts with
  | nil => exact ⟨[], List.map_eq_nil_iff.1 same, rfl⟩
  | cons p parameters ih =>
    cases parameters with
    | nil =>
      obtain ⟨t, rest, rfl, first, none⟩ := List.map_eq_cons_iff.1 same
      exact ⟨[t], by rw [List.map_eq_nil_iff.1 none]; rfl, by simpa using first⟩
    | cons q parameters =>
      rw [List.intersperse_cons_cons, List.map_cons, List.map_cons] at same
      obtain ⟨t, rest, rfl, first, same⟩ := List.map_eq_cons_iff.1 same
      obtain ⟨u, rest, rfl, second, same⟩ := List.map_eq_cons_iff.1 same
      obtain ⟨parameters', rfl, named⟩ := ih same
      have between : u = .separator := by
        rcases Token.eq_or_variable (u := .separator) second with rfl | ⟨_, _, _, -, token⟩
        · rfl
        · cases token
      obtain ⟨q', parameters', rfl, -⟩ := List.map_eq_cons_iff.1 named
      exact ⟨t :: q' :: parameters', by rw [between, List.intersperse_cons_cons],
        by rw [List.map_cons, first, named, List.map_cons (a := p)]⟩

/-- A list that differs from the tokens of a header in cells is a header. -/
theorem exists_tokens {first : Token} {parameters : List Token}
    (same : ts.map withoutCell = (tokens first parameters).map withoutCell) :
    ∃ (first' : Token) (parameters' : List Token), ts = tokens first' parameters' ∧
      first'.withoutCell = first.withoutCell ∧
      parameters'.map withoutCell = parameters.map withoutCell := by
  have fixed : ∀ {t u : Token}, t.withoutCell = u.withoutCell → u.kind ≠ .value → t = u := by
    intro t u same other
    rcases Token.eq_or_variable same with rfl | ⟨_, _, _, -, rfl⟩
    · rfl
    · exact absurd rfl other
  rw [tokens, List.map_cons, List.map_cons, List.map_append] at same
  obtain ⟨first', rest, rfl, begins, same⟩ := List.map_eq_cons_iff.1 same
  obtain ⟨opened, rest, rfl, bracket, same⟩ := List.map_eq_cons_iff.1 same
  obtain ⟨inside, behind, rfl, listed, ends⟩ := List.map_eq_append_iff.1 same
  obtain ⟨parameters', rfl, named⟩ := exists_intersperse listed
  obtain ⟨closed, rest, rfl, bracket', ends⟩ := List.map_eq_cons_iff.1 ends
  obtain ⟨assigned, rest, rfl, sign, none⟩ := List.map_eq_cons_iff.1 ends
  refine ⟨first', parameters', ?_, begins, named⟩
  rw [fixed (u := .openBracket) bracket (by decide), fixed (u := .closeBracket) bracket' (by decide),
    fixed (u := .ofSymbol '=') sign (by decide), List.map_eq_nil_iff.1 none]
  rfl

end Header

end UnitCalc
