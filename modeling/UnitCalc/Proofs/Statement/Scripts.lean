/-
# Scripts are cut outside of braces

The parts of a script are joined with `@`, with `=` or `:`, and with `:`, and a cut at the first
such marks outside of braces tells them apart. Blocks inside of a script have the same marks between
their own parts; they are not cut, so that each of them is whole within one part of the script.

## Main definitions

* `Script.marksFor`: the marks of scripts that have some number of parts at most.
* `Script.joined`: the script that parts make up.
* `Script.AreParts`: balanced texts that a script can be made of.

## Main results

* `Script.parts_joined`: the parts that a script is made of are found again.
* `Script.cut_outside`: what stands in braces is read as a whole, by cursors and by scripts.
-/

import UnitCalc.Proofs.Text.Cursor
import UnitCalc.Statement.Script

namespace UnitCalc

open Text (Balanced StandsOutside Joined Uncut)

/-- The most parts of a block. An equation may have its right side as one more part. -/
def Method.maximum (m : Method) : Nat :=
  if m = .root then m.partCount + 1 else m.partCount

namespace Script

/-- The marks of scripts with some number of parts at most. The first two are the same for all. -/
def marksFor (maximum : Nat) : List (List Char) :=
  ['@'] :: ['=', ':'] :: List.replicate (maximum - 3) [':']

/-- The script of an objective, a variable, and bounds behind one of the signs `=` and `:`. -/
def joined (sign : Char) : List (List Char) → List Char
  | objective :: unknown :: bound :: bounds =>
    objective ++ '@' :: (unknown ++ sign :: List.intercalate [':'] (bound :: bounds))
  | parts => List.intercalate ['@'] parts

/-- Balanced texts that a script can be made of: outside of braces the objective has no `@`, the
variable no `=` or `:`, and what stands in front of the last possible part no `:`. -/
structure AreParts (maximum : Nat) (parts : List (List Char)) : Prop where
  nonempty : parts ≠ []
  atMost : parts.length ≤ maximum
  balanced : ∀ part ∈ parts, Balanced part
  objective : ∀ part ∈ parts[0]?, ¬ StandsOutside '@' part
  unknown : ∀ part ∈ parts[1]?, ¬ StandsOutside '=' part ∧ ¬ StandsOutside ':' part
  bounds : ∀ i, 2 ≤ i → i + 1 < maximum → ∀ part ∈ parts[i]?, ¬ StandsOutside ':' part

variable {maximum limit : Nat} {sign : Char} {parts : List (List Char)}

theorem marks_eq_marksFor (m : Method) : m.marks = marksFor m.maximum := by
  cases m <;> rfl

theorem getElem?_marksFor {i : Nat} (later : 2 ≤ i) {marks : List Char}
    (mark : marks ∈ (marksFor maximum)[i]?) : i + 1 < maximum ∧ marks = [':'] := by
  obtain ⟨i, rfl⟩ := Nat.exists_eq_add_of_le' later
  have repeated : (List.replicate (maximum - 3) [':'])[i]? = some marks := mark
  rw [List.getElem?_replicate] at repeated
  split at repeated
  · cases repeated
    exact ⟨by omega, rfl⟩
  · cases repeated

/-- The parts of a script have no marks of their places. -/
theorem AreParts.uncut (are : AreParts maximum parts) : Uncut (marksFor maximum) parts := by
  intro i marks place part found mark within
  by_cases later : 2 ≤ i
  · obtain ⟨early, rfl⟩ := getElem?_marksFor later place
    rw [List.mem_singleton.1 within]
    exact are.bounds i later early part found
  · obtain rfl | rfl : i = 0 ∨ i = 1 := by omega
    · cases place
      rw [List.mem_singleton.1 within]
      exact are.objective part found
    · cases place
      obtain rfl | rfl : mark = '=' ∨ mark = ':' := by simpa using within
      · exact (are.unknown part found).1
      · exact (are.unknown part found).2

/-- Bounds are joined with the marks of as many places. -/
theorem joined_bounds (bound : List Char) (bounds : List (List Char)) (n : Nat) :
    Joined (List.replicate (bounds.length + n) [':']) (bound :: bounds)
      (List.intercalate [':'] (bound :: bounds)) := by
  induction bounds generalizing bound with
  | nil =>
    have alone : List.intercalate [':'] [bound] = bound := by simp [List.intercalate]
    rw [alone]
    exact .last _ bound
  | cons next bounds ih =>
    have behind : List.intercalate [':'] (bound :: next :: bounds) =
        bound ++ ':' :: List.intercalate [':'] (next :: bounds) := by simp [List.intercalate]
    rw [behind, List.length_cons, Nat.add_right_comm, List.replicate_succ]
    exact .mark (List.mem_singleton_self _) (ih next)

theorem joined_marksFor (nonempty : parts ≠ []) (atMost : parts.length ≤ maximum)
    (isSign : sign ∈ ['=', ':']) : Joined (marksFor maximum) parts (joined sign parts) := by
  match parts with
  | [] => exact absurd rfl nonempty
  | [objective] =>
    have alone : joined sign [objective] = objective := by simp [joined, List.intercalate]
    rw [alone]
    exact .last _ objective
  | [objective, unknown] =>
    have text : joined sign [objective, unknown] = objective ++ '@' :: unknown := by
      simp [joined, List.intercalate]
    rw [text]
    exact .mark (List.mem_singleton_self _) (.last _ unknown)
  | objective :: unknown :: bound :: bounds =>
    obtain ⟨more, enough⟩ : ∃ more, maximum - 3 = bounds.length + more :=
      Nat.exists_eq_add_of_le (by simp only [List.length_cons] at atMost; omega)
    rw [marksFor, enough]
    exact .mark (List.mem_singleton_self _) (.mark isSign (joined_bounds bound bounds more))

/-- The texts that a script is made of are told apart. -/
theorem AreParts.partsOutside_joined (are : AreParts maximum parts) (isSign : sign ∈ ['=', ':']) :
    Text.partsOutside (marksFor maximum) (joined sign parts) = parts :=
  Text.partsOutside_joined (joined_marksFor are.nonempty are.atMost isSign) are.balanced are.uncut

/-- The parts of a script are trimmed. -/
theorem map_parts (method : Method) (script : Shorter limit) :
    (Script.parts method script).map Subtype.val =
      (Text.partsOutside (marksFor method.maximum) script.1).map Text.trimList := by
  rw [← marks_eq_marksFor, Script.parts, List.map_map]
  exact List.attach_map_val (f := Text.trimList)

/-- The parts that a script is made of are found again. -/
theorem parts_joined {method : Method} {script : Shorter limit}
    (are : AreParts method.maximum parts) (isSign : sign ∈ ['=', ':'])
    (text : script.1 = joined sign parts) :
    (Script.parts method script).map Subtype.val = parts.map Text.trimList := by
  rw [map_parts, text, are.partsOutside_joined isSign]

/-- A block inside of a script is whole within one of the parts. -/
theorem exists_part {method : Method} {script : Shorter limit} {inside : List Char}
    (balanced : Balanced inside) (within : '{' :: (inside ++ ['}']) <:+: script.1) :
    ∃ part ∈ Script.parts method script, '{' :: (inside ++ ['}']) <:+: part.1 := by
  have braces : ∀ marks ∈ marksFor method.maximum, '{' ∉ marks := by
    intro marks place
    simp only [marksFor, List.mem_cons, List.mem_replicate] at place
    rcases place with rfl | rfl | ⟨-, rfl⟩ <;> decide
  obtain ⟨part, member, whole⟩ := Text.exists_part_of_infix braces balanced within
  have trimmed : Text.trimList part ∈ (Script.parts method script).map Subtype.val := by
    rw [map_parts]
    exact List.mem_map_of_mem member
  obtain ⟨found, member, same⟩ := List.mem_map.1 trimmed
  refine ⟨found, member, ?_⟩
  rw [same]
  exact Text.infix_trimList (by decide) (by decide) whole

/-- Braces are read as a whole. A brace is closed behind the balanced text that follows it, whatever
stands behind that, and there the cursor stops; without such a text the cursor stays where it is.
The parts that a script is made of are found again, trimmed, and every block inside of a script is
whole within one of them. -/
theorem cut_outside :
    (∀ cs inside after, Text.braced 0 cs = some (inside, after) ↔
      Balanced inside ∧ cs = inside ++ '}' :: after) ∧
    (∀ (k : Cursor) inside after, Balanced inside → k.ahead = '{' :: (inside ++ '}' :: after) →
      k.braced = (some inside, k.forward (inside.length + 2)) ∧
        (k.forward (inside.length + 2)).ahead = after) ∧
    (∀ k : Cursor, (∀ inside after, Balanced inside →
      k.ahead ≠ '{' :: (inside ++ '}' :: after)) → k.braced = (none, k)) ∧
    (∀ maximum parts sign, AreParts maximum parts → sign ∈ ['=', ':'] →
      (Text.partsOutside (marksFor maximum) (joined sign parts)).map Text.trimList =
        parts.map Text.trimList) ∧
    (∀ (method : Method) (limit : Nat) (script : Shorter limit) parts sign,
      AreParts method.maximum parts → sign ∈ ['=', ':'] → script.1 = joined sign parts →
        (Script.parts method script).map Subtype.val = parts.map Text.trimList) ∧
    (∀ (method : Method) (limit : Nat) (script : Shorter limit) inside,
      Balanced inside → '{' :: (inside ++ ['}']) <:+: script.1 →
        ∃ part ∈ Script.parts method script, '{' :: (inside ++ ['}']) <:+: part.1) := by
  refine ⟨fun cs inside after => Text.braced_eq_some_iff, ?_, ?_, ?_, ?_, ?_⟩
  · intro k inside after balanced ahead
    have closed : Text.braced 0 (inside ++ '}' :: after) = some (inside, after) :=
      Text.braced_eq_some_iff.2 ⟨balanced, rfl⟩
    exact ⟨Cursor.braced_of_some ahead closed, Cursor.ahead_behind_braces ahead closed⟩
  · intro k never
    refine Cursor.braced_of_none fun rest ahead => Text.braced_eq_none_iff.2 ?_
    intro inside after balanced same
    exact never inside after balanced (ahead.trans (congrArg ('{' :: ·) same))
  · intro maximum parts sign are isSign
    rw [are.partsOutside_joined isSign]
  · intro method limit script parts sign are isSign text
    exact parts_joined are isSign text
  · intro method limit script inside balanced within
    exact exists_part balanced within

/-- The parts of a script whose objective is a block with the same marks. -/
def nestedParts : List (List Char) :=
  [['{', 'k', '@', 'k', ':', '1', '}'], [' ', 'x'], ['0'], ['1']]

theorem areParts_nested : AreParts 4 nestedParts where
  nonempty := by decide
  atMost := by decide
  balanced := by decide
  objective := by decide
  unknown := by decide
  bounds i later early := by
    obtain rfl : i = 2 := by omega
    decide

/-- A block with the marks of a script, in the braces of a cursor and as the objective of a script;
and a brace that is not closed. -/
theorem cut_outside_nested :
    Text.braced 0 ['k', '@', '}', 'x'] = some (['k', '@'], ['x']) ∧
    (Cursor.mk ['{', 'k', '}', 'x'] 0).braced = (some ['k'], ⟨['{', 'k', '}', 'x'], 3⟩) ∧
    (Cursor.mk ['{', 'k'] 0).braced = (none, ⟨['{', 'k'], 0⟩) ∧
    (Text.partsOutside (marksFor 4) (joined '=' nestedParts)).map Text.trimList =
      nestedParts.map Text.trimList ∧
    (Script.parts .find (Shorter.all (joined '=' nestedParts))).map Subtype.val =
      [['{', 'k', '@', 'k', ':', '1', '}'], ['x'], ['0'], ['1']] ∧
    ∃ part ∈ Script.parts .find (Shorter.all (joined '=' nestedParts)),
      ['{', 'k', '@', 'k', ':', '1', '}'] <:+: part.1 := by
  obtain ⟨closed, passes, stays, told, found, whole⟩ := cut_outside
  refine ⟨(closed _ _ _).2 ⟨by decide, rfl⟩, (passes _ ['k'] ['x'] (by decide) rfl).1, ?_,
    told 4 nestedParts '=' areParts_nested (by decide),
    found .find _ _ nestedParts '=' areParts_nested (by decide) rfl,
    whole .find _ _ ['k', '@', 'k', ':', '1'] (by decide) (by decide)⟩
  refine stays _ fun inside after _ ahead => ?_
  have closes : '}' ∈ ['{', 'k'] := by
    have ahead' : ['{', 'k'] = '{' :: (inside ++ '}' :: after) := ahead
    rw [ahead']
    simp
  simp at closes

end Script

end UnitCalc
