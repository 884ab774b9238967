/-
# Blanks

White space is the Unicode property White_Space, version 15: the ASCII blanks
and controls, the no-break spaces, the typographic spaces and the separators of
lines and paragraphs. Blanks separate tokens and are trimmed from the parts of a
statement.
-/

namespace UnitCalc.Text

/-- A white space character of any script. -/
def isBlank (c : Char) : Bool :=
  let n := c.toNat
  n == 0x20 || (0x09 ≤ n && n ≤ 0x0D) || n == 0x85 || n == 0xA0 || n == 0x1680 ||
    (0x2000 ≤ n && n ≤ 0x200A) || n == 0x2028 || n == 0x2029 || n == 0x202F || n == 0x205F ||
    n == 0x3000

/-- The characters without the blanks at the front. -/
def trimStart (cs : List Char) : List Char :=
  cs.dropWhile isBlank

/-- The characters without the blanks at the back. -/
def trimEnd (cs : List Char) : List Char :=
  (trimStart cs.reverse).reverse

/-- The characters without the blanks at both ends. -/
def trimList (cs : List Char) : List Char :=
  trimEnd (trimStart cs)

/-- A text without the blanks at both ends. -/
def trim (s : String) : String :=
  String.ofList (trimList s.toList)

theorem length_trimStart_le (cs : List Char) : (trimStart cs).length ≤ cs.length :=
  (List.dropWhile_sublist isBlank).length_le

theorem length_trimList_le (cs : List Char) : (trimList cs).length ≤ cs.length := by
  have back := length_trimStart_le (trimStart cs).reverse
  have front := length_trimStart_le cs
  simp only [trimList, trimEnd, List.length_reverse] at back ⊢
  omega

/-- Cuts the characters in two at the first one equal to `mark`, which is
dropped; the second part is missing when there is none. -/
def cutAt (mark : Char) : List Char → List Char × Option (List Char)
  | [] => ([], none)
  | c :: rest =>
    if c == mark then ([], some rest)
    else
      let (front, back) := cutAt mark rest
      (c :: front, back)

theorem length_cutAt (mark : Char) (cs : List Char) :
    (cutAt mark cs).1.length ≤ cs.length ∧
      ∀ back ∈ (cutAt mark cs).2, back.length < cs.length := by
  induction cs with
  | nil => simp [cutAt]
  | cons c rest step =>
    unfold cutAt
    split
    · simp
    · refine ⟨by simpa using step.1, fun back member => ?_⟩
      exact Nat.lt_succ_of_lt (step.2 back member)

end UnitCalc.Text
