/-
# Reading behind dead cells

What is read does not depend on where cells stand. Behind cells that nothing refers to, a text is
read into the same tokens, whose cells stand further on, and functions are defined and blocks are
added in the same way.

## Main definitions

* `Scan.raised n`: what was read, with cells that stand `n` places further on.

## Main results

* `Scan.relocates_run`: characters are read into the same tokens.
* `SessionM.relocates_parseStatement`: statements are read in the same way, with their blocks and
  definitions.
-/

import UnitCalc.Proofs.Session.Relocation
import UnitCalc.Proofs.Session.Occurrence
import UnitCalc.Proofs.Statement.Body
import UnitCalc.Proofs.Statement.Modes

namespace UnitCalc

/-- A statement whose cells stand further on. -/
def Statement.raised (n : Nat) (statement : Statement) : Statement :=
  { statement with program := statement.program.map (Token.raised n) }

namespace Scan

/-- What was read, with cells that stand further on. -/
def raised (n : Nat) (a : Scan) : Scan :=
  { a with reversed := a.reversed.map (Token.raised n) }

variable (n : Nat) (a : Scan)

theorem tokens_raised : (a.raised n).tokens = a.tokens.map (Token.raised n) := by
  rw [tokens, tokens, raised, List.map_reverse]

theorem last?_raised : (a.raised n).last? = a.last?.map (Token.raised n) :=
  List.head?_map

theorem push_raised (t : Token) : (a.raised n).push (t.raised n) = (a.push t).raised n := rfl

theorem closeDivisor_raised : (a.raised n).closeDivisor = a.closeDivisor.raised n := by
  unfold closeDivisor
  have same : (a.raised n).inDivisor = a.inDivisor := rfl
  rw [same]
  split <;> rfl

theorem expectsOperand_raised : (a.raised n).expectsOperand = a.expectsOperand := by
  rw [expectsOperand, expectsOperand, last?_raised]
  cases a.last? with
  | none => rfl
  | some t => cases t <;> rfl

theorem takesUnit_raised : (a.raised n).takesUnit = a.takesUnit := by
  rw [takesUnit, takesUnit, last?_raised]
  cases a.last? with
  | none => rfl
  | some t => cases t <;> rfl

theorem assign_raised (allowed : Bool) :
    (a.raised n).assign allowed = (a.assign allowed).map (raised n) := by
  unfold assign
  have same : (a.raised n).assignment = a.assignment := rfl
  have length : (a.raised n).reversed.length = a.reversed.length := List.length_map _
  rw [same, length]
  split <;> rfl

theorem operator_raised (allowed : Bool) (symbol : Char) :
    (a.raised n).operator allowed symbol = (a.operator allowed symbol).map (raised n) := by
  unfold operator
  rw [expectsOperand_raised]
  split
  · rfl
  · dsimp only
    by_cases power : (symbol == '^') = true
    · simp only [if_pos power]
      split
      · exact assign_raised n { a with isDividing := isDivision symbol } allowed
      · rfl
    · simp only [if_neg power, closeDivisor_raised]
      split
      · exact assign_raised n { a.closeDivisor with isDividing := isDivision symbol } allowed
      · rfl

theorem factorial_raised : (a.raised n).factorial = a.factorial.map (raised n) := by
  rw [factorial, factorial, last?_raised]
  cases a.last? with
  | none => rfl
  | some t => cases t <;> rfl

theorem openBracket_raised : (a.raised n).openBracket = a.openBracket.raised n := rfl

theorem endOperand_raised (t : Token) :
    (a.raised n).endOperand (t.raised n) = (a.endOperand t).raised n := by
  rw [endOperand, endOperand, closeDivisor_raised]
  rfl

theorem unitSuffix_raised (unit : Token) :
    (a.raised n).unitSuffix (unit.raised n) = (a.unitSuffix unit).raised n := by
  obtain ⟨reversed, assignment, isDividing, inDivisor⟩ := a
  cases isDividing <;> cases inDivisor <;> cases reversed <;> rfl

theorem number_raised (complex : Bool) (c : Char) (rest : List Char) :
    (a.raised n).number complex c rest =
      (a.number complex c rest).map fun r => (r.1.raised n, r.2) := by
  unfold number
  dsimp only
  generalize readNumber (c :: rest.takeWhile isNumberChar) = r
  cases r with
  | error e => rfl
  | ok x =>
    by_cases imaginary : (complex && isImaginaryMark (Shorter.skip isNumberChar rest).1) = true
    · simp only [bind, Except.bind, if_pos imaginary]
      rfl
    · simp only [bind, Except.bind, if_neg imaginary]
      rfl

theorem exclamation_raised (allowed : Bool) (rest : List Char) :
    (a.raised n).exclamation allowed rest =
      (a.exclamation allowed rest).map fun r => (r.1.raised n, r.2) := by
  unfold exclamation
  split
  · rw [operator_raised]
    cases a.operator allowed '≠' <;> rfl
  · rw [factorial_raised]
    cases a.factorial <;> rfl

theorem mayDefine_raised (name : String) : (a.raised n).mayDefine name = a.mayDefine name := by
  rw [mayDefine, mayDefine, tokens_raised, List.head?_map]
  cases a.tokens.head? with
  | none => rfl
  | some t => cases t <;> rfl

variable (dead : Array Cell) (angles : Option Bool) (s : Session)

theorem functionToken?_behind (name : String) : functionToken? (s.behind dead angles) name =
    (functionToken? s name).map (Token.raised dead.size) := by
  have names : (s.behind dead angles).functionNames = s.functionNames := rfl
  unfold functionToken?
  rw [names]
  split
  · rfl
  split
  · rfl
  split
  · rfl
  split
  · rfl
  cases s.functionNames.lookup name with
  | none => rfl
  | some i =>
    simp only [Option.map_some, Session.getElem?_functions_behind]
    cases s.functions[i]? with
    | none => rfl
    | some f =>
      have arity : (f.raised dead.size).parameters.length = f.parameters.length :=
        List.length_map _
      simp only [Option.map_some, Option.elim_some, arity]
      rfl

theorem function_behind (name : String) :
    (a.raised dead.size).function (s.behind dead angles) name =
      (a.function s name).map (raised dead.size) := by
  unfold function
  rw [functionToken?_behind, mayDefine_raised]
  cases functionToken? s name with
  | some t => rfl
  | none =>
    dsimp only [Option.map_none]
    split <;> rfl

theorem unitToken_behind (name : String) : unitToken (s.behind dead angles) name =
    (unitToken s name).map (Token.raised dead.size) := by
  unfold unitToken
  rw [Session.unit?_behind]
  cases s.unit? name <;> rfl

theorem signedUnit_behind (name : String) (after : List Char) :
    (a.raised dead.size).signedUnit (s.behind dead angles) name after =
      (a.signedUnit s name after).map (raised dead.size) := by
  have empty : (a.raised dead.size).reversed.isEmpty = a.reversed.isEmpty := List.isEmpty_map
  unfold signedUnit
  rw [empty, unitToken_behind]
  split
  · rfl
  · cases unitToken s name <;> rfl

open SessionM

variable {dead angles}

theorem relocates_variableName (name : String) :
    Relocates dead angles (raised dead.size) (a.variableName name)
      ((a.raised dead.size).variableName name) := by
  unfold variableName
  refine .get_bind fun s => ?_
  rw [Session.cellOf_behind]
  exact .bind (.set _) fun _ => .pure (a.push _)

theorem relocates_name (first : Char) (name : String) (after : List Char) :
    Relocates dead angles (raised dead.size) (a.name first name after)
      ((a.raised dead.size).name first name after) := by
  rw [name_eq, name_eq, takesUnit_raised]
  split
  · exact .throw _
  · split
    · exact .read fun s => a.function_behind dead angles s name
    · split
      · refine .bind (.read fun s => unitToken_behind dead angles s name) fun t => ?_
        rw [unitSuffix_raised]
        exact .pure _
      · split
        · exact a.relocates_variableName name
        · exact .read fun s => a.signedUnit_behind dead angles s name after

theorem relocates_word (c : Char) (rest : List Char) :
    Relocates dead angles (fun r => (r.1.raised dead.size, r.2)) (a.word c rest)
      ((a.raised dead.size).word c rest) := by
  unfold word
  exact .guard (.bind (a.relocates_name c _ _) fun b => .pure (b, _))

theorem relocates_input (rest : List Char) :
    Relocates dead angles (fun r => (r.1.raised dead.size, r.2)) (a.input rest)
      ((a.raised dead.size).input rest) := by
  unfold input
  split
  · split
    · exact .throw _
    · exact .bind (.same _) fun x => .pure (a.push _, _)
  · refine .get_bind fun s => ?_
    have lines : (s.behind dead angles).input = s.input := rfl
    have enabled : (s.behind dead angles).isEnabled = s.isEnabled := rfl
    rw [lines, enabled]
    split
    · next line rest' _ _ =>
      exact .bind (.set { s with input := rest' }) fun _ =>
        .bind (.same _) fun x => .pure (a.push _, _)
    · exact .pure (a.push (.input none), _)

variable {limit : Nat} {create create' : Method → Shorter limit → SessionM Nat}

theorem relocates_block
    (blocks : ∀ method script,
      Relocates dead angles id (create method script) (create' method script))
    (rest : List Char) (within : rest.length < limit) :
    Relocates dead angles (fun r => (r.1.raised dead.size, r.2)) (a.block limit create rest within)
      ((a.raised dead.size).block limit create' rest within) := by
  unfold block
  split
  · exact .throw _
  · dsimp only
    split
    · exact .throw _
    · split
      · exact .throw _
      · exact .bind (blocks _ _) fun index => .pure (a.push (.block index _), _)

/-- What begins with a character is read into the same tokens. -/
theorem relocates_lexeme
    (blocks : ∀ method script,
      Relocates dead angles id (create method script) (create' method script))
    (allowed : Bool) (c : Char) (rest : List Char) (within : rest.length < limit) :
    Relocates dead angles (fun r => (r.1.raised dead.size, r.2))
      (a.lexeme limit create allowed c rest within)
      ((a.raised dead.size).lexeme limit create' allowed c rest within) := by
  unfold lexeme
  refine .ite (.pure (a, _)) ?_
  cases CharClass.of c <;> dsimp only
  case digit => exact .read fun s => a.number_raised dead.size _ c rest
  case letter => exact a.relocates_word c rest
  case operator =>
    exact .bind (.result (a.operator_raised dead.size allowed _)) fun b => .pure (b, _)
  case exclamation => exact .result (a.exclamation_raised dead.size allowed rest)
  case block => exact a.relocates_block blocks rest within
  case input => exact a.relocates_input rest
  case openBracket => exact .pure (a.openBracket, _)
  case closeBracket =>
    have ended := a.endOperand_raised dead.size .closeBracket
    exact ended ▸ .pure (a.endOperand .closeBracket, _)
  case separator =>
    have ended := a.endOperand_raised dead.size .separator
    exact ended ▸ .pure (a.endOperand .separator, _)
  case stop | unknown => exact .throw _

/-- Characters are read into the same tokens, whose cells stand further on. -/
theorem relocates_run
    (blocks : ∀ method script,
      Relocates dead angles id (create method script) (create' method script))
    {allowed : Bool} {cs : List Char} (within : cs.length ≤ limit) (a : Scan) :
    Relocates dead angles (raised dead.size) (run limit create allowed cs within a)
      (run limit create' allowed cs within (a.raised dead.size)) := by
  -- Strong induction: a lexeme may take more than one character.
  induction length : cs.length using Nat.strongRecOn generalizing cs a with
  | ind n ih =>
    cases cs with
    | nil =>
      rw [run, run, closeDivisor_raised]
      exact .pure _
    | cons c rest =>
      rw [run, run, closeDivisor_raised]
      refine .ite (.pure _) (.bind (a.relocates_lexeme blocks allowed c rest within) ?_)
      rintro ⟨b, after⟩
      exact ih after.1.length (length ▸ after.2) _ b rfl

end Scan

/-! ## Definitions -/

namespace SessionM

variable {dead : Array Cell} {angles : Option Bool}

theorem relocates_bindProgram (parameters : List (String × CellId)) (program : List Token) :
    Relocates dead angles (List.map (Token.raised dead.size)) (bindProgram parameters program)
      (bindProgram (raisedNames dead.size parameters)
        (program.map (Token.raised dead.size))) :=
  .modifyGet fun s => s.bindProgram_behind dead angles parameters program

theorem relocates_newParameters (names : List String) :
    Relocates dead angles (raisedNames dead.size) (modifyGet fun s => s.newParameters names)
      (modifyGet fun s => s.newParameters names) :=
  .modifyGet fun s => s.newParameters_behind dead angles names

theorem relocates_define (tokens : List Token) (unit : Option ValueUnit) :
    Relocates dead angles id (define tokens unit)
      (define (tokens.map (Token.raised dead.size)) unit) := by
  unfold define
  refine .bind (.result (Header.ofTokens_mapCell _ tokens)) fun header => ?_
  refine .bind (.result (Postfix.ofTokens_mapCell _ header.body)) fun program => ?_
  rw [List.isEmpty_map]
  refine .guard ?_
  refine .bind (relocates_newParameters header.parameters) fun parameters => ?_
  refine .bind (relocates_bindProgram parameters program) fun body => ?_
  -- What is installed is accepted or refused.
  let f : UserFunction := { name := header.name, parameters, body, unit }
  have installed : Relocates dead angles id
      (modifyGet fun s => (((s.install f).1, (s.install f).2.1), (s.install f).2.2))
      (modifyGet fun s => (((s.install (f.raised dead.size)).1,
        (s.install (f.raised dead.size)).2.1), (s.install (f.raised dead.size)).2.2)) :=
    .modifyGet fun s => by rw [Session.install_behind]; rfl
  refine .bind installed fun r => .get_bind fun s => ?_
  rw [Session.isCircular_behind]
  refine .ite ?_ ?_
  · exact .bind (.modify fun s => s.refuse_behind dead angles r.1 r.2) fun _ => .throw _
  · exact .bind (.modify fun s => s.accept_behind dead angles f r.1 r.2) fun _ => .pure r.1

theorem relocates_parseUnit (text : Option (List Char)) :
    Relocates dead angles id (parseUnit text) (parseUnit text) := by
  unfold parseUnit
  split
  · exact .pure none
  · refine .read fun s => ?_
    rw [Session.unit?_behind]
    split <;> rfl

theorem relocates_unitNames (isDefinition : Bool) :
    Relocates dead angles id (unitNames isDefinition) (unitNames isDefinition) :=
  .get_bind fun _ => .pure _

theorem relocates_ofScan (source : List Char) (unit : Option ValueUnit) (a : Scan) :
    Relocates dead angles (Statement.raised dead.size) (ofScan source unit a)
      (ofScan source unit (a.raised dead.size)) := by
  have isEmpty : (a.raised dead.size).tokens.isEmpty = a.tokens.isEmpty := by
    rw [Scan.tokens_raised, List.isEmpty_map]
  have assigned (s : Session) (cell : Option CellId) :
      (cell.map (dead.size + ·)).any (s.behind dead angles).isAssigned =
        cell.any s.isAssigned := by
    cases cell with
    | none => rfl
    | some id => exact s.isAssigned_behind dead angles id
  unfold ofScan
  rw [isEmpty]
  refine .guard ?_
  refine .bind (.result ((congrArg _ (a.tokens_raised _)).trans (Token.check_mapCell _ _))) ?_
  rintro ⟨tokens, isDefinition⟩
  refine .get_bind fun s => .guard ?_
  refine .bind (relocates_unitNames isDefinition) fun names => .get_bind fun s => ?_
  have bound := Token.bind_mapCell (assigned s) names a.assignment tokens
  dsimp only [id]
  rw [show (a.raised dead.size).assignment = a.assignment from rfl, bound]
  refine .ite ?_ ?_
  · exact .bind (relocates_define _ unit) fun i => .pure _
  · exact .bind (.result (Postfix.ofTokens_mapCell _ _)) fun program => .pure _

/-! ## Blocks -/

section

variable {limit : Nat} {parse parse' : Shorter limit → Bool → SessionM (List Token)}

theorem relocates_readBlock
    (parts : ∀ text allowed,
      Relocates dead angles (List.map (Token.raised dead.size)) (parse text allowed)
        (parse' text allowed))
    (method : Method) (script : Script limit) :
    Relocates dead angles (Block.raised dead.size) (readBlock parse method script)
      (readBlock parse' method script) := by
  have part (text : Shorter limit) (allowed : Bool) : Relocates dead angles (Part.raised dead.size)
      (do return (⟨String.ofList text.1, ← parse text allowed⟩ : Part))
      (do return ⟨String.ofList text.1, ← parse' text allowed⟩) :=
    .bind (parts text allowed) fun program => .pure (⟨_, program⟩ : Part)
  have side (text : Option (Shorter limit)) :
      Relocates dead angles (Option.map (Part.raised dead.size))
        (text.mapM fun text => do return (⟨String.ofList text.1, ← parse text false⟩ : Part))
        (text.mapM fun text => do return ⟨String.ofList text.1, ← parse' text false⟩) := by
    cases text with
    | none => exact .pure none
    | some text => exact .bind (part text false) fun p => .pure (some p)
  unfold readBlock
  refine .bind (part script.objective _) fun objective => ?_
  refine .bind (part script.unknown _) fun unknown => ?_
  refine .bind (part script.lower _) fun lower => ?_
  refine .bind (side script.upper) fun upper => .bind (side script.equation) fun equation => ?_
  obtain ⟨text, program⟩ := unknown
  -- The variable has to be a single name.
  rcases program with _ | ⟨t, _ | ⟨u, rest⟩⟩
  · exact .throw _
  · cases t with
    | «variable» cell name =>
      refine .bind (.modifyGet fun s => s.newParameter_behind dead angles) fun parameter => ?_
      exact .pure ({ method, objective, unknown := .variable cell name, lower, upper, equation,
                     parameter } : Block)
    | _ => exact .throw _
  · cases t <;> exact .throw _

theorem relocates_bindUnknown (b : Block) :
    Relocates dead angles (Block.raised dead.size) (bindUnknown b)
      (bindUnknown (b.raised dead.size)) := by
  have name : (b.raised dead.size).unknownName = b.unknownName := Token.content_mapCell _ _
  have bindPart (part : Part) : Relocates dead angles (Part.raised dead.size)
      (do return { part with
        program := ← bindProgram [(b.unknownName, b.parameter)] part.program } : SessionM Part)
      (do return { part.raised dead.size with
        program := ← bindProgram [(b.unknownName, dead.size + b.parameter)]
          (part.raised dead.size).program }) :=
    .bind (relocates_bindProgram [(b.unknownName, b.parameter)] part.program) fun program =>
      .pure { part with program }
  unfold bindUnknown
  rw [name]
  refine .bind (bindPart b.objective) fun objective => ?_
  have equation : Relocates dead angles (Option.map (Part.raised dead.size))
      (b.equation.mapM fun part => do return { part with
        program := ← bindProgram [(b.unknownName, b.parameter)] part.program } :
          SessionM (Option Part))
      ((b.equation.map (Part.raised dead.size)).mapM fun part => do return { part with
        program := ← bindProgram [(b.unknownName, dead.size + b.parameter)] part.program }) := by
    cases b.equation with
    | none => exact .pure none
    | some part => exact .bind (bindPart part) fun part => .pure (some part)
  exact .bind equation fun equation => .pure { b with objective, equation }

theorem relocates_extremumCell (method : Method) (unknown : String) :
    Relocates dead angles (Option.map (dead.size + ·)) (extremumCell method unknown)
      (extremumCell method unknown) := by
  unfold extremumCell
  split
  · exact .pure none
  · exact .bind (.modifyGet fun s => s.cellOf_behind dead angles _) fun id =>
      .bind (.modify fun s => s.assign_behind dead angles id .undefined) fun _ => .pure (some id)

theorem relocates_insideBlock {α β : Type} {raise : α → β} {x : SessionM α} {y : SessionM β}
    (inner : Relocates dead angles raise x y) :
    Relocates dead angles raise (insideBlock x) (insideBlock y) := by
  refine .of_outcome fun s => ?_
  have entered : outcome y { s.behind dead angles with
      blockDepth := (s.behind dead angles).blockDepth + 1 } = _ :=
    inner.outcome_eq { s with blockDepth := s.blockDepth + 1 }
  rw [outcome_insideBlock, outcome_insideBlock, entered]
  rfl

/-- Blocks are added in the same way, when their parts are read in the same way. -/
theorem relocates_createBlock
    (parts : ∀ text allowed,
      Relocates dead angles (List.map (Token.raised dead.size)) (parse text allowed)
        (parse' text allowed))
    (method : Method) (text : Shorter limit) :
    Relocates dead angles id (createBlock parse method text) (createBlock parse' method text) := by
  refine relocates_insideBlock (.bind (.same _) fun script => ?_)
  refine .bind (relocates_readBlock parts method script) fun b => ?_
  refine .bind (relocates_bindUnknown b) fun b => ?_
  have name : (b.raised dead.size).unknownName = b.unknownName := Token.content_mapCell _ _
  rw [name]
  refine .bind (relocates_extremumCell method b.unknownName) fun extremum => ?_
  exact .modifyGet fun s => s.addBlock_behind dead angles { b with extremum }

end

/-! ## Statements -/

/-- Statements are read in the same way, and their cells stand further on. -/
theorem relocates_parseStatement (source : List Char) (allowed : Bool) :
    Relocates dead angles (Statement.raised dead.size) (parseStatement source allowed)
      (parseStatement source allowed) := by
  -- The parts of blocks are shorter than the statement.
  induction length : source.length using Nat.strongRecOn generalizing source allowed with
  | ind n ih =>
    rw [parseStatement]
    refine .bind (relocates_parseUnit _) fun unit => ?_
    have parts (part : Shorter source.length) (allowed : Bool) :
        Relocates dead angles (List.map (Token.raised dead.size))
          (do return (← parseStatement part.1 allowed).program : SessionM (List Token))
          (do return (← parseStatement part.1 allowed).program) :=
      .bind (ih _ (length ▸ part.2) part.1 allowed rfl) fun statement => .pure statement.program
    refine .bind (Scan.relocates_run (relocates_createBlock parts) _ {}) fun scan => ?_
    exact relocates_ofScan source unit scan

theorem relocates_parse (text : String) :
    Relocates dead angles (Statement.raised dead.size) (parse text) (parse text) := by
  refine .bind (.modify fun s => ?_) fun _ => relocates_parseStatement _ true
  simp only [Session.limitResults, Session.behind, Array.map_map, Function.comp_def,
    UserFunction.limited_raised]

/-- So are expressions over named parameters. -/
theorem relocates_parsePlotted (text : String) :
    Relocates dead angles (Statement.raised dead.size) (parsePlotted text) (parsePlotted text) := by
  refine .of_outcome fun s => ?_
  have plotted : outcome (parseStatement text.toList false)
      { s.behind dead angles with isPlotting := true } = _ :=
    (relocates_parseStatement text.toList false).outcome_eq { s with isPlotting := true }
  rw [Session.outcome_parsePlotted, Session.outcome_parsePlotted, plotted]
  rfl

end SessionM

end UnitCalc
