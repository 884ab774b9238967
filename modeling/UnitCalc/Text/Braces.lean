/-
# Braces

Braces nest, and what stands between them is left to whoever reads it: texts are cut, and
comments begin, outside of braces only. None of these functions returns more characters
than it was given.

## Main definitions

* `Text.braced` reads up to the brace that closes an open one.
* `Text.cutOutside` cuts a text in two outside of braces, and `Text.partsOutside` in several.
* `Text.withoutComment` drops a comment.
-/

import UnitCalc.Text.Blank

namespace UnitCalc.Text

/-- Reads behind an open brace up to the brace that closes it, with `depth` more braces open
in between: what stands before that brace, and what stands behind it. -/
def braced (depth : Nat) : List Char → Option (List Char × List Char)
  | [] => none
  | c :: rest =>
    match c, depth with
    | '{', depth => (braced (depth + 1) rest).map fun (inside, after) => (c :: inside, after)
    | '}', 0 => some ([], rest)
    | '}', depth + 1 => (braced depth rest).map fun (inside, after) => (c :: inside, after)
    | c, depth => (braced depth rest).map fun (inside, after) => (c :: inside, after)

theorem length_braced {depth : Nat} {cs inside after : List Char}
    (found : braced depth cs = some (inside, after)) :
    inside.length + after.length < cs.length := by
  induction cs generalizing depth inside after with
  | nil => simp [braced] at found
  | cons c rest step =>
    unfold braced at found
    split at found
    all_goals try
      obtain ⟨⟨front, back⟩, inner, same⟩ := Option.map_eq_some_iff.mp found
      obtain ⟨rfl, rfl⟩ := Prod.mk.inj same
      have := step inner
      simp only [List.length_cons]
      omega
    obtain ⟨rfl, rfl⟩ := Prod.mk.inj (Option.some.inj found)
    simp

/-- The number of open braces behind a character. -/
def depthAfter (c : Char) (depth : Nat) : Nat :=
  if c == '{' then depth + 1 else if c == '}' then depth - 1 else depth

/-- Cuts a text at the first of some marks that stands outside of braces. The mark is
dropped; the second part is missing when there is none. -/
def cutOutside (marks : List Char) (depth : Nat) : List Char → List Char × Option (List Char)
  | [] => ([], none)
  | c :: rest =>
    if depth == 0 && marks.contains c then ([], some rest)
    else
      let (front, back) := cutOutside marks (depthAfter c depth) rest
      (c :: front, back)

theorem length_cutOutside (marks : List Char) (depth : Nat) (cs : List Char) :
    (cutOutside marks depth cs).1.length ≤ cs.length ∧
      ∀ back ∈ (cutOutside marks depth cs).2, back.length ≤ cs.length := by
  induction cs generalizing depth with
  | nil => simp [cutOutside]
  | cons c rest step =>
    unfold cutOutside
    split
    · simp
    · obtain ⟨front, back⟩ := step (depthAfter c depth)
      refine ⟨by simpa using front, fun b member => ?_⟩
      exact Nat.le_succ_of_le (back b member)

/-- Cuts a text outside of braces, first at one of the first marks, then what is left at one
of the second marks, and so on. -/
def partsOutside : List (List Char) → List Char → List (List Char)
  | [], cs => [cs]
  | marks :: rest, cs =>
    match cutOutside marks 0 cs with
    | (front, some back) => front :: partsOutside rest back
    | (front, none) => [front]

theorem length_of_mem_partsOutside {marks : List (List Char)} {cs part : List Char}
    (member : part ∈ partsOutside marks cs) : part.length ≤ cs.length := by
  induction marks generalizing cs with
  | nil => simp_all [partsOutside]
  | cons m rest step =>
    have bounds := length_cutOutside m 0 cs
    unfold partsOutside at member
    split at member <;> rename_i front _ cut <;> rw [cut] at bounds
    · rename_i back
      rcases List.mem_cons.mp member with rfl | member
      · exact bounds.1
      · exact Nat.le_trans (step member) (bounds.2 back rfl)
    · rw [List.mem_singleton.mp member]
      exact bounds.1

/-- A quote starts a comment. -/
def isQuote (c : Char) : Bool :=
  c == '\'' || c == '"'

/-- A text without the comment that starts at the first quote outside of braces. `depth` is
the number of open braces, less that of braces that closed none. -/
def withoutComment (depth : Int) : List Char → List Char
  | [] => []
  | c :: rest =>
    if isQuote c && depth ≤ 0 then []
    else
      let depth := if c == '{' then depth + 1 else if c == '}' then depth - 1 else depth
      c :: withoutComment depth rest

theorem length_withoutComment (depth : Int) (cs : List Char) :
    (withoutComment depth cs).length ≤ cs.length := by
  induction cs generalizing depth with
  | nil => simp [withoutComment]
  | cons c rest step =>
    unfold withoutComment
    split
    · simp
    · exact Nat.succ_le_succ (step _)

end UnitCalc.Text
