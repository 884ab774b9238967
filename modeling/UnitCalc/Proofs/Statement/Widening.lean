/-
# Blocks in longer statements

The parts of a block are shorter than the statement around it, which bounds how deep blocks are
nested. The bound has no part in what is read: a script is cut and a block is created in the same
way in a longer statement.

## Main definitions

* `Shorter.widen`, `Script.widen`: a text, and a script, within a greater bound.

## Main results

* `SessionM.createBlock_widen`: a block is created from the same parts.
* `Scan.run_widen`: the same blocks are created by a scan within a greater bound.
-/

import UnitCalc.Statement.Block

namespace UnitCalc

variable {n m : Nat}

/-- A text within a greater bound. -/
def Shorter.widen (le : n ≤ m) (cs : Shorter n) : Shorter m :=
  ⟨cs.1, Nat.lt_of_lt_of_le cs.2 le⟩

namespace Script

/-- A script within a greater bound. -/
def widen (le : n ≤ m) (script : Script n) : Script m where
  objective := script.objective.widen le
  unknown := script.unknown.widen le
  lower := script.lower.widen le
  upper := script.upper.map (Shorter.widen le)
  equation := script.equation.map (Shorter.widen le)

variable (le : n ≤ m)

theorem parts_widen (method : Method) (script : Shorter n) :
    parts method (script.widen le) = (parts method script).map (Shorter.widen le) := by
  rw [parts, parts, List.map_map]
  rfl

theorem sides_widen (text : Shorter n) :
    sides (text.widen le) =
      ((sides text).1.widen le, (sides text).2.map (Shorter.widen le)) := by
  rw [sides, sides, Option.map_map]
  rfl

theorem readEquation_widen (objective : Shorter n) (separate : Option (Shorter n)) :
    readEquation (objective.widen le) (separate.map (Shorter.widen le)) =
      (readEquation objective separate).map
        (Prod.map (Shorter.widen le) (Option.map (Shorter.widen le))) := by
  unfold readEquation
  rw [sides_widen]
  obtain ⟨left, right⟩ := sides objective
  cases right with
  | none => rfl
  | some right =>
    simp only [Option.map_some, sides_widen, Option.isSome_map]
    split <;> rfl

theorem read_widen (method : Method) (script : Shorter n) :
    read method (script.widen le) = (read method script).map (widen le) := by
  have same : (fun part : Shorter m => part.1.isEmpty) ∘ Shorter.widen le =
      fun part : Shorter n => part.1.isEmpty := rfl
  unfold read
  dsimp only
  rw [parts_widen, List.length_map, List.findIdx?_map, same]
  split
  · rfl
  · cases (parts method script).findIdx? fun part => part.1.isEmpty with
    | some place => rfl
    | none =>
      rcases parts method script with _ | ⟨objective, _ | ⟨unknown, _ | ⟨lower, bounds⟩⟩⟩
      · rfl
      · rfl
      · rfl
      · have bound (i : Nat) :
            (bounds.map (Shorter.widen le))[i]? = bounds[i]?.map (Shorter.widen le) :=
          List.getElem?_map
        have filtered (side : Option (Shorter n)) :
            (side.map (Shorter.widen le)).filter (fun side => !side.1.isEmpty) =
              (side.filter fun side => !side.1.isEmpty).map (Shorter.widen le) :=
          Option.filter_map ..
        simp only [List.map_cons, bound]
        split
        · rw [readEquation_widen]
          cases readEquation objective bounds[1]? with
          | error e => rfl
          | ok sides => exact congrArg (fun side => Except.ok (Script.mk _ _ _ _ side)) (filtered _)
        · rfl

end Script

namespace SessionM

variable (le : n ≤ m)

theorem readBlock_widen (parse : Shorter m → Bool → SessionM (List Token)) (method : Method)
    (script : Script n) :
    readBlock parse method (script.widen le) =
      readBlock (fun part => parse (part.widen le)) method script := by
  obtain ⟨objective, unknown, lower, upper, equation⟩ := script
  cases upper <;> cases equation <;> rfl

theorem createBlock_widen (parse : Shorter m → Bool → SessionM (List Token)) (method : Method)
    (script : Shorter n) :
    createBlock parse method (script.widen le) =
      createBlock (fun part => parse (part.widen le)) method script := by
  unfold createBlock
  rw [Script.read_widen]
  cases Script.read method script with
  | error e => rfl
  | ok parts =>
    show insideBlock (readBlock parse method (parts.widen le) >>= _) = _
    rw [readBlock_widen]
    rfl

end SessionM

namespace Scan

variable (le : n ≤ m) (create : Method → Shorter m → SessionM Nat) {rest : List Char}
  {allowed : Bool}

theorem block_widen (within : rest.length < n) (s : Scan) :
    s.block n (fun method script => create method (script.widen le)) rest within =
      s.block m create rest (Nat.lt_of_lt_of_le within le) := by
  unfold Scan.block
  split
  · rfl
  · dsimp only
    split
    · rfl
    · split <;> rfl

theorem lexeme_widen (c : Char) (within : rest.length < n) (s : Scan) :
    s.lexeme n (fun method script => create method (script.widen le)) allowed c rest within =
      s.lexeme m create allowed c rest (Nat.lt_of_lt_of_le within le) := by
  unfold Scan.lexeme
  rw [block_widen]

/-- A scan creates the same blocks within a greater bound. -/
theorem run_widen {cs : List Char} (within : cs.length ≤ n) (within' : cs.length ≤ m) (s : Scan) :
    run n (fun method script => create method (script.widen le)) allowed cs within s =
      run m create allowed cs within' s := by
  -- Strong induction: a lexeme may take more than one character.
  induction length : cs.length using Nat.strongRecOn generalizing cs s with
  | ind k ih =>
    cases cs with
    | nil =>
      rw [run, run]
    | cons c rest =>
      rw [run, run, lexeme_widen]
      split
      · rfl
      · exact congrArg _ (funext fun r => ih r.2.1.length (length ▸ r.2.2) _ _ _ rfl)

end Scan

end UnitCalc
