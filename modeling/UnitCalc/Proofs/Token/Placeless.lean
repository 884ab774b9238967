/-
# Tokens and their cells

Two sessions read a text into the same tokens, apart from the cells that names denote. What
becomes of the tokens does not depend on cells: the check, the binding orders and the order of
the program are the same when names denote other cells, or none. Nor does it depend on what stands
before an assignment, once that is read.

## Main definitions

* `Token.mapCell f`: a token whose name denotes another cell.
* `Token.withoutCell`: a token without the cell of its name.
* `Legality.State.Behind`: the check has come as far, behind more tokens.

## Main results

* `Legality.run_behind`: the check does the same behind other tokens.
* `Token.check_mapCell`, `Postfix.ofTokens_mapCell`: the check and the program of tokens with other
  cells.
* `Token.tighten_append`: runs of units begin anew behind an assignment.
-/

import UnitCalc.Postfix.Basic
import UnitCalc.Proofs.Token.Restated

namespace UnitCalc

namespace Token

variable {t u : Token} {ts us before : List Token}

/-- A token whose name denotes another cell. -/
def mapCell (f : Option CellId → Option CellId) : Token → Token
  | .variable cell name => .variable (f cell) name
  | t => t

/-- A token without the cell of its name. -/
def withoutCell : Token → Token
  | .variable _ name => .variable none name
  | t => t

theorem withoutCell_eq_mapCell : withoutCell = mapCell fun _ => none := by
  funext t
  cases t <;> rfl

/-- Tokens that differ in cells are names, or they do not differ. -/
theorem eq_or_variable (same : t.withoutCell = u.withoutCell) :
    t = u ∨ ∃ cell cell' name, t = .variable cell name ∧ u = .variable cell' name := by
  cases t with
  | «variable» cell name =>
    cases u with
    | «variable» cell' name' =>
      cases same
      exact .inr ⟨cell, cell', name, rfl, rfl⟩
    | _ => cases same
  | _ =>
    cases u with
    | «variable» => cases same
    | _ => exact .inl same

/-- What does not depend on cells is the same for tokens that differ in cells. -/
theorem congr_withoutCell {α : Type} {f : Token → α}
    (names : ∀ cell cell' name, f (.variable cell name) = f (.variable cell' name))
    (same : t.withoutCell = u.withoutCell) : f t = f u := by
  rcases eq_or_variable same with rfl | ⟨cell, cell', name, rfl, rfl⟩
  · rfl
  · exact names cell cell' name

@[simp]
theorem isAssignment_withoutCell (t : Token) : t.withoutCell.isAssignment = t.isAssignment := by
  cases t <;> rfl

/-! ## What cells do not matter for -/

section

variable (f : Option CellId → Option CellId) (t : Token)

@[simp]
theorem withoutCell_mapCell : (t.mapCell f).withoutCell = t.withoutCell := by
  cases t <;> rfl

@[simp]
theorem isUnit_mapCell : (t.mapCell f).isUnit = t.isUnit := by
  cases t <;> rfl

@[simp]
theorem isConstant_mapCell : (t.mapCell f).isConstant = t.isConstant := by
  cases t <;> rfl

@[simp]
theorem isOperator_mapCell (symbol : Char) :
    (t.mapCell f).isOperator symbol = t.isOperator symbol := by
  cases t <;> rfl

@[simp]
theorem isAssignment_mapCell : (t.mapCell f).isAssignment = t.isAssignment :=
  isOperator_mapCell f t '='

@[simp]
theorem content_mapCell : (t.mapCell f).content = t.content := by
  cases t <;> rfl

@[simp]
theorem text_mapCell : (t.mapCell f).text = t.text := by
  cases t <;> rfl

@[simp]
theorem isDangling_mapCell : (t.mapCell f).isDangling = t.isDangling := by
  cases t <;> rfl

@[simp]
theorem blockIndex?_mapCell : (t.mapCell f).blockIndex? = t.blockIndex? := by
  cases t <;> rfl

theorem mayFollow_mapCell (previous : Option Token) :
    (t.mapCell f).mayFollow (previous.map (mapCell f)) = t.mayFollow previous := by
  have after : (t.mapCell f).classAfter = t.classAfter := by cases t <;> rfl
  cases previous with
  | none => rfl
  | some p =>
    have before : (p.mapCell f).classBefore = p.classBefore := by cases p <;> rfl
    rw [Option.map_some, mayFollow, mayFollow, after, before]

theorem ordered_mapCell : (t.mapCell f).ordered = t.ordered.mapCell f := by
  cases t <;> rfl

theorem ordered_withoutCell (t : Token) : t.withoutCell.ordered = t.ordered.withoutCell := by
  cases t <;> rfl

theorem tightened_mapCell : (t.mapCell f).tightened = t.tightened.mapCell f := by
  cases t with
  | operator symbol order =>
    simp only [mapCell, tightened]
    split <;> rfl
  | _ => rfl

theorem keepsRun_mapCell (p : Token) : keepsRun (p.mapCell f) (t.mapCell f) = keepsRun p t := by
  simp only [keepsRun, joinsUnits, isOperator_mapCell, isConstant_mapCell]

end

/-! ## Binding orders -/

theorem tightenFrom_mapCell (f : Option CellId → Option CellId) (p : Token) (inRun : Bool)
    (ts : List Token) : tightenFrom (p.mapCell f) inRun (ts.map (mapCell f)) =
      (tightenFrom p inRun ts).map (mapCell f) := by
  induction ts generalizing p inRun with
  | nil => rfl
  | cons t ts ih =>
    simp only [List.map_cons, tightenFrom, isUnit_mapCell, keepsRun_mapCell, ih]
    split
    · rw [List.map_cons]
      split
      · rw [tightened_mapCell]
      · rfl
    · rfl

theorem tighten_mapCell (f : Option CellId → Option CellId) (ts : List Token) :
    tighten (ts.map (mapCell f)) = (tighten ts).map (mapCell f) := by
  cases ts with
  | nil => rfl
  | cons t ts =>
    rw [List.map_cons, tighten, tighten, isUnit_mapCell]
    exact tightenFrom_mapCell f t t.isUnit ts

theorem tighten_withoutCell (ts : List Token) :
    tighten (ts.map withoutCell) = (tighten ts).map withoutCell := by
  rw [withoutCell_eq_mapCell]
  exact tighten_mapCell _ ts

variable {f : Option CellId → Option CellId} {isAssigned isAssigned' : CellId → Bool}

theorem resolved_mapCell (same : ∀ cell, (f cell).any isAssigned' = cell.any isAssigned)
    (find : String → Option ValueUnit) (t : Token) :
    (t.mapCell f).resolved isAssigned' find = (t.resolved isAssigned find).mapCell f := by
  cases t with
  | «variable» cell name =>
    simp only [mapCell, resolved, same]
    split
    · rfl
    · cases find name <;> rfl
  | _ => rfl

/-- When the other cells are assigned as the cells are, the binding orders are the same. -/
theorem bind_mapCell (same : ∀ cell, (f cell).any isAssigned' = cell.any isAssigned)
    (find : Option (String → Option ValueUnit)) (assignment : Nat) (ts : List Token) :
    Token.bind isAssigned' find assignment (ts.map (mapCell f)) =
      (Token.bind isAssigned find assignment ts).map (mapCell f) := by
  unfold Token.bind
  rw [← tighten_mapCell]
  refine congrArg tighten (List.mapIdx_eq_iff.2 fun i => ?_)
  rw [List.getElem?_map, List.getElem?_mapIdx, List.getElem?_map, Option.map_map, Option.map_map]
  refine congrArg (ts[i]?.map ·) (funext fun t => ?_)
  cases find with
  | none => exact (ordered_mapCell f t).symm
  | some find =>
    simp only [Function.comp, ordered_mapCell, resolved_mapCell same]
    split <;> rfl

/-- Behind a token outside of runs the orders are those of the rest alone. -/
theorem tightenFrom_false (p : Token) (ts : List Token) :
    tightenFrom p false ts = p :: tighten ts := by
  cases ts with
  | nil => rfl
  | cons t ts =>
    rw [tightenFrom, tighten]
    cases t.isUnit <;> rfl

/-- Tokens that are no units stay as they are, and runs begin anew behind them. -/
theorem tighten_append (plain : ∀ t ∈ before, t.isUnit = false) (ts : List Token) :
    tighten (before ++ ts) = before ++ tighten ts := by
  induction before with
  | nil => rfl
  | cons t before ih =>
    rw [List.forall_mem_cons] at plain
    rw [List.cons_append, tighten, plain.1, tightenFrom_false, ih plain.2, List.cons_append]

end Token

/-! ## The check -/

namespace Legality

variable {header header' : Option String} {previous previous' : Option Token} {t u : Token}
  {before ts us : List Token} {s s' r r' final final' : State}

/-- The open call when more tokens stand before it. -/
def OpenCall.behind (before : List Token) (c : OpenCall) : OpenCall :=
  { c with place := before.length + c.place }

/-- The check has come as far in another list, which has more tokens in front. Cells may differ,
and what is known about assignments. -/
structure State.Behind (before : List Token) (s s' : State) : Prop where
  checked : s'.checked.toList.map Token.withoutCell =
    before ++ s.checked.toList.map Token.withoutCell
  depth : s'.depth = s.depth
  separators : s'.separators = s.separators
  openCalls : s'.openCalls = s.openCalls.map (OpenCall.behind before)

theorem map_modify_setCount {g : Token → Token}
    (same : ∀ count t, g (setCount count t) = setCount count (g t)) (ts : List Token)
    (place count : Nat) :
    (ts.modify place (setCount count)).map g = (ts.map g).modify place (setCount count) := by
  induction ts generalizing place with
  | nil => simp
  | cons t ts ih =>
    cases place with
    | zero => simp [same]
    | succ place => simp [ih]

theorem setCount_withoutCell (count : Nat) (t : Token) :
    (setCount count t).withoutCell = setCount count t.withoutCell := by
  cases t <;> rfl

theorem modify_append {α : Type} (before ts : List α) (place : Nat) (f : α → α) :
    (before ++ ts).modify (before.length + place) f = before ++ ts.modify place f := by
  induction before with
  | nil => simp
  | cons t before ih =>
    rw [List.length_cons, Nat.succ_add, List.cons_append, List.modify_succ_cons, ih,
      List.cons_append]

theorem closeBracket_behind (behind : s.Behind before s') (closed : closeBracket s = .ok r)
    (closed' : closeBracket s' = .ok r') : r.Behind before r' := by
  obtain ⟨checked, depth, separators, openCalls⟩ := behind
  unfold closeBracket at closed closed'
  rw [depth, separators, openCalls] at closed'
  cases level : s.depth with
  | zero =>
    rw [level] at closed
    cases closed
  | succ level' =>
    rw [level] at closed closed'
    cases calls : s.openCalls with
    | nil =>
      rw [calls] at closed closed' openCalls
      cases closed
      cases closed'
      exact ⟨checked, rfl, rfl, rfl⟩
    | cons c rest =>
      rw [calls] at closed closed' openCalls
      simp only [List.map_cons, OpenCall.behind] at closed closed'
      by_cases same : (c.depth == level') = true
      · -- the call gets its number of arguments, wherever it stands
        rw [if_pos same] at closed closed'
        cases closed
        cases closed'
        refine ⟨?_, rfl, rfl, rfl⟩
        simp only [Array.toList_modify, map_modify_setCount setCount_withoutCell, checked,
          modify_append]
      · rw [if_neg same] at closed closed'
        cases closed
        cases closed'
        exact ⟨checked, rfl, rfl, rfl⟩

theorem call_behind {name : String} {count : Nat} (behind : s.Behind before s')
    (called : call header name count s = .ok r) (called' : call header' name count s' = .ok r') :
    r.Behind before r' := by
  obtain ⟨checked, depth, separators, openCalls⟩ := behind
  unfold call at called called'
  split at called
  · cases called
  split at called'
  · cases called'
  by_cases several : 1 < count
  · rw [if_pos several] at called called'
    cases called
    cases called'
    exact ⟨checked, depth, by simp only [separators], openCalls⟩
  · rw [if_neg several] at called called'
    cases called
    cases called'
    exact ⟨checked, depth, separators, openCalls⟩

/-- A token other than an assignment does the same behind other tokens. -/
theorem advance_behind (behind : s.Behind before s') (same : t.withoutCell = u.withoutCell)
    (ordinary : t.isAssignment = false) (advanced : advance header previous t s = .ok r)
    (advanced' : advance header' previous' u s' = .ok r') : r.Behind before r' := by
  -- The places of open calls are moved by the number of tokens in front.
  have length : s'.checked.size = before.length + s.checked.size := by
    have lengths := congrArg List.length behind.checked
    simpa using lengths
  obtain ⟨checked, depth, separators, openCalls⟩ := behind
  rcases Token.eq_or_variable same with rfl | ⟨cell, cell', name, rfl, rfl⟩
  · cases t with
    | closeBracket =>
      exact closeBracket_behind ⟨checked, depth, separators, openCalls⟩ advanced advanced'
    | call index name count =>
      exact call_behind ⟨checked, depth, separators, openCalls⟩ advanced advanced'
    | operator symbol order =>
      have other : (symbol == '=') = false := ordinary
      simp only [advance, other] at advanced advanced'
      cases advanced
      cases advanced'
      exact ⟨checked, depth, separators, openCalls⟩
    | multiFunction name count =>
      cases advanced
      cases advanced'
      refine ⟨checked, depth, separators, ?_⟩
      simp [OpenCall.behind, length, depth, separators, openCalls]
    | openBracket | separator | binaryFunction | conditional =>
      cases advanced
      cases advanced'
      exact ⟨checked, by simp [depth], by simp [separators], openCalls⟩
    | _ =>
      cases advanced
      cases advanced'
      exact ⟨checked, depth, separators, openCalls⟩
  · cases advanced
    cases advanced'
    exact ⟨checked, depth, separators, openCalls⟩

/-- When a list and its rest behind other tokens are legal, the check does the same for both. -/
theorem run_behind (behind : s.Behind before s')
    (same : us.map Token.withoutCell = ts.map Token.withoutCell)
    (ordinary : ∀ t ∈ ts, t.isAssignment = false) (ran : run header previous ts s = .ok final)
    (ran' : run header' previous' us s' = .ok final') : final.Behind before final' := by
  induction ts generalizing us previous previous' s s' with
  | nil =>
    rw [List.map_nil, List.map_eq_nil_iff] at same
    subst same
    cases ran
    cases ran'
    exact behind
  | cons t ts ih =>
    obtain ⟨u, us, rfl, first, others⟩ := List.map_eq_cons_iff.1 same
    rw [List.forall_mem_cons] at ordinary
    obtain ⟨r, stepped, ran⟩ := run_cons ran
    obtain ⟨r', stepped', ran'⟩ := run_cons ran'
    obtain ⟨-, a, advanced, rfl⟩ := step_ok stepped
    obtain ⟨-, a', advanced', rfl⟩ := step_ok stepped'
    -- One step keeps the relation, and the token itself is added in both lists.
    have next := advance_behind behind first.symm ordinary.1 advanced advanced'
    have pushed : State.Behind before { a with checked := a.checked.push t }
        { a' with checked := a'.checked.push u } := by
      refine ⟨?_, next.depth, next.separators, next.openCalls⟩
      simp only [Array.toList_push, List.map_append, List.map_cons, next.checked, first,
        List.append_assoc, List.map_nil]
    exact ih pushed others ordinary.2 ran ran'

/-! ### The check of tokens with other cells -/

section

open Token (mapCell)

variable (f : Option CellId → Option CellId)

/-- A state of the check of tokens with other cells. -/
def State.mapCells (s : State) : State :=
  { s with checked := s.checked.map (mapCell f) }

theorem closeBracket_mapCells (s : State) :
    closeBracket (s.mapCells f) = (closeBracket s).map (State.mapCells f) := by
  have counted (place count : Nat) : (s.checked.map (mapCell f)).modify place (setCount count) =
      (s.checked.modify place (setCount count)).map (mapCell f) := by
    rw [← Array.toList_inj, Array.toList_modify, Array.toList_map, Array.toList_map,
      Array.toList_modify, map_modify_setCount fun _ t => by cases t <;> rfl]
  simp only [closeBracket, State.mapCells, counted]
  split
  · rfl
  · split
    · split <;> rfl
    · rfl

theorem assignment_mapCells (header : Option String) (previous : Option Token) (s : State) :
    assignment header (previous.map (mapCell f)) (s.mapCells f) =
      (assignment header previous s).map (State.mapCells f) := by
  unfold assignment State.mapCells
  rcases previous with _ | p
  · split_ifs <;> rfl
  · cases p <;> dsimp only [Option.map_some, mapCell] <;> split_ifs <;> rfl

theorem call_mapCells (header : Option String) (name : String) (count : Nat) (s : State) :
    call header name count (s.mapCells f) =
      (call header name count s).map (State.mapCells f) := by
  unfold call State.mapCells
  split_ifs <;> rfl

theorem advance_mapCells (header : Option String) (previous : Option Token) (t : Token)
    (s : State) : advance header (previous.map (mapCell f)) (t.mapCell f) (s.mapCells f) =
      (advance header previous t s).map (State.mapCells f) := by
  cases t with
  | closeBracket => exact closeBracket_mapCells f s
  | call index name count => exact call_mapCells f header name count s
  | operator symbol order =>
    simp only [mapCell, advance]
    split
    · exact assignment_mapCells f header previous s
    · rfl
  | multiFunction name count =>
    simp [mapCell, advance, State.mapCells, Except.map]
  | _ => rfl

theorem step_mapCells (header : Option String) (previous : Option Token) (t : Token)
    (s : State) : step header (previous.map (mapCell f)) (t.mapCell f) (s.mapCells f) =
      (step header previous t s).map (State.mapCells f) := by
  have texts : (previous.map (mapCell f)).map Token.text = previous.map Token.text := by
    cases previous <;> simp
  simp only [step, Token.mayFollow_mapCell, advance_mapCells, texts, Token.text_mapCell]
  split
  · cases advance header previous t s with
    | error e => rfl
    | ok r => simp [Except.map, State.mapCells]
  · rfl

theorem run_mapCells (header : Option String) (previous : Option Token) (ts : List Token)
    (s : State) : run header (previous.map (mapCell f)) (ts.map (mapCell f)) (s.mapCells f) =
      (run header previous ts s).map (State.mapCells f) := by
  induction ts generalizing previous s with
  | nil => rfl
  | cons t ts ih =>
    rw [List.map_cons, run, run, step_mapCells]
    cases step header previous t s with
    | error e => rfl
    | ok r => exact ih (some t) r

theorem finish_mapCells (ts : List Token) (s : State) :
    finish (ts.map (mapCell f)) (s.mapCells f) =
      (finish ts s).map fun r => (r.1.map (mapCell f), r.2) := by
  have dangling : (ts.map (mapCell f)).getLast?.any Token.isDangling =
      ts.getLast?.any Token.isDangling := by
    rw [List.getLast?_map]
    cases ts.getLast? <;> simp
  unfold finish
  rw [dangling]
  split
  · rfl
  · have rest : (if 0 < (s.mapCells f).depth then Except.error CalcError.missingRightBracket
        else if 0 < (s.mapCells f).separators then .error .unexpectedDelimiter
        else if (s.mapCells f).separators < 0 then .error .argumentCount
        else .ok ((s.mapCells f).checked.toList, (s.mapCells f).isDefinition)) =
          (if 0 < s.depth then Except.error CalcError.missingRightBracket
            else if 0 < s.separators then .error .unexpectedDelimiter
            else if s.separators < 0 then .error .argumentCount
            else .ok (s.checked.toList, s.isDefinition)).map
              fun r => (r.1.map (mapCell f), r.2) := by
      unfold State.mapCells
      split_ifs <;> simp [Except.map]
    cases ts with
    | nil => exact rest
    | cons t ts =>
      cases t with
      | call index name count =>
        cases index with
        | none =>
          -- without a definition the function is not known
          obtain ⟨checked, depth, separators, seenOperator, isDefinition, openCalls⟩ := s
          cases isDefinition with
          | false => rfl
          | true => exact rest
        | some => exact rest
      | _ => exact rest

end

end Legality

namespace Token

variable (f : Option CellId → Option CellId)

theorem headerName?_mapCell (ts : List Token) :
    headerName? (ts.map (mapCell f)) = headerName? ts := by
  cases ts with
  | nil => rfl
  | cons t ts => cases t <;> rfl

/-- The check does the same for tokens with other cells. -/
theorem check_mapCell (ts : List Token) :
    check (ts.map (mapCell f)) = (check ts).map fun r => (r.1.map (mapCell f), r.2) := by
  have ran := Legality.run_mapCells f (headerName? ts) none ts {}
  rw [show Legality.State.mapCells f {} = {} by simp [Legality.State.mapCells],
    Option.map_none] at ran
  rw [check, check, headerName?_mapCell, ran]
  cases Legality.run (headerName? ts) none ts {} with
  | error e => rfl
  | ok s => exact Legality.finish_mapCells f ts s

end Token

/-! ## Programs -/

namespace Postfix

open Token (mapCell withoutCell)

variable (f : Option CellId → Option CellId)

@[simp]
theorem yieldsTo_mapCell (symbol : Char) (order : Int) (t : Token) :
    yieldsTo symbol order (t.mapCell f) = yieldsTo symbol order t := by
  cases t <;> rfl

@[simp]
theorem yieldsToFactorial_mapCell (t : Token) :
    yieldsToFactorial (t.mapCell f) = yieldsToFactorial t := by
  cases t <;> rfl

@[simp]
theorem isNotOpen_mapCell (t : Token) : isNotOpen (t.mapCell f) = isNotOpen t := by
  cases t <;> rfl

variable {f} in
theorem takeWhile_mapCell {p : Token → Bool} (same : ∀ t : Token, p (t.mapCell f) = p t)
    (ts : List Token) : (ts.map (mapCell f)).takeWhile p = (ts.takeWhile p).map (mapCell f) := by
  rw [List.takeWhile_map]
  exact congrArg (List.map (mapCell f)) (congrArg (ts.takeWhile ·) (funext same))

variable {f} in
theorem dropWhile_mapCell {p : Token → Bool} (same : ∀ t : Token, p (t.mapCell f) = p t)
    (ts : List Token) : (ts.map (mapCell f)).dropWhile p = (ts.dropWhile p).map (mapCell f) := by
  rw [List.dropWhile_map]
  exact congrArg (List.map (mapCell f)) (congrArg (ts.dropWhile ·) (funext same))

theorem map_map_ok {r : Except CalcError (List Token)} (front : List Token) :
    (r.map (List.map (mapCell f))).map (front.map (mapCell f) ++ ·) =
      (r.map (front ++ ·)).map (List.map (mapCell f)) := by
  cases r with
  | error e => rfl
  | ok program => simp [Except.map]

/-- The program of tokens with other cells is the program with other cells. -/
theorem ofTokensFrom_mapCell (stack ts : List Token) :
    ofTokensFrom (stack.map (mapCell f)) (ts.map (mapCell f)) =
      (ofTokensFrom stack ts).map (List.map (mapCell f)) := by
  -- The induction is on the tokens, for any stack; what is moved around depends on no cell.
  induction ts generalizing stack with
  | nil =>
    simp only [List.map_nil, ofTokensFrom, drain, List.all_map, Function.comp_def,
      isNotOpen_mapCell]
    split <;> rfl
  | cons t ts ih =>
    cases t with
    | blank => exact ih stack
    | constant | unit | «variable» | block | input =>
      simp only [List.map_cons, mapCell]
      rw [ofTokensFrom, ofTokensFrom, ih]
      cases ofTokensFrom stack ts <;> rfl
    | negation | openBracket | function | binaryFunction | multiFunction | conditional | call =>
      exact ih (_ :: stack)
    | operator symbol order =>
      simp only [List.map_cons, mapCell]
      rw [ofTokensFrom, ofTokensFrom,
        takeWhile_mapCell (yieldsTo_mapCell f symbol order),
        dropWhile_mapCell (yieldsTo_mapCell f symbol order), ← map_map_ok, ← ih]
      rfl
    | factorial =>
      simp only [List.map_cons, mapCell]
      rw [ofTokensFrom, ofTokensFrom,
        takeWhile_mapCell (yieldsToFactorial_mapCell f),
        dropWhile_mapCell (yieldsToFactorial_mapCell f), ih]
      have moved := map_map_ok f (r := ofTokensFrom (stack.dropWhile yieldsToFactorial) ts)
        (stack.takeWhile yieldsToFactorial ++ [.factorial])
      simpa [mapCell] using moved
    | closeBracket | separator =>
      simp only [List.map_cons, mapCell]
      rw [ofTokensFrom, ofTokensFrom,
        takeWhile_mapCell (isNotOpen_mapCell f), dropWhile_mapCell (isNotOpen_mapCell f)]
      cases stack.dropWhile isNotOpen with
      | nil => rfl
      | cons bracket below =>
        dsimp only [List.map_cons]
        rw [← map_map_ok, ← ih]
        rfl

theorem ofTokens_mapCell (ts : List Token) :
    ofTokens (ts.map (mapCell f)) = (ofTokens ts).map (List.map (mapCell f)) :=
  ofTokensFrom_mapCell f [] ts

/-- The program of tokens without cells is the program without cells. -/
theorem ofTokens_withoutCell (ts : List Token) :
    ofTokens (ts.map withoutCell) = (ofTokens ts).map (List.map withoutCell) := by
  rw [Token.withoutCell_eq_mapCell]
  exact ofTokens_mapCell _ ts

end Postfix

end UnitCalc
