/-
# Classes of characters

What a class of characters leaves out is checked for finitely many characters: blanks, digits and
single signs are no letters.

## Main results

* `isBlank_of_class`: a class without blanks has none.
* `isDigit_of_isAlphabetic`: a letter is no digit.
-/

import UnitCalc.Text.Alphabetic
import UnitCalc.Text.Blank

namespace UnitCalc.Text

variable {c : Char}

/-- A character of a class is none of some characters outside of it. -/
theorem not_mem_of_class {p : Char → Bool} (holds : p c = true) (others : List Nat)
    (outside : (others.all fun n => !p (Char.ofNat n)) = true) : c.toNat ∉ others := by
  intro within
  have other := List.all_eq_true.1 outside c.toNat within
  rw [Char.ofNat_toNat, holds] at other
  cases other

/-- The code points of blanks. -/
def blanks : List Nat :=
  [0x20, 0x85, 0xA0, 0x1680, 0x2028, 0x2029, 0x202F, 0x205F, 0x3000] ++ List.range' 0x09 5 ++
    List.range' 0x2000 11

/-- A character of a class without blanks is no blank. -/
theorem isBlank_of_class {p : Char → Bool} (holds : p c = true)
    (outside : (blanks.all fun n => !p (Char.ofNat n)) = true) : isBlank c = false := by
  have others := not_mem_of_class holds blanks outside
  simp only [blanks, List.mem_append, List.mem_cons, List.mem_range'_1, List.not_mem_nil, or_false]
    at others
  -- Blanks are finitely many, so the class is checked for all of them.
  rw [Bool.eq_false_iff]
  intro blank
  simp only [isBlank, Bool.or_eq_true, Bool.and_eq_true, beq_iff_eq, decide_eq_true_eq] at blank
  omega

theorem ne_of_isAlphabetic (letter : isAlphabetic c = true) {d : Char}
    (other : isAlphabetic d = false) : c ≠ d := by
  rintro rfl
  rw [letter] at other
  cases other

theorem isDigit_of_isAlphabetic (letter : isAlphabetic c = true) : c.isDigit = false := by
  have others := not_mem_of_class letter (List.range' 48 10) (by decide)
  rw [List.mem_range'_1] at others
  rw [Bool.eq_false_iff]
  intro digit
  simp only [Char.isDigit, Bool.and_eq_true, decide_eq_true_eq, ge_iff_le, UInt32.le_iff_toNat_le]
    at digit
  exact others ⟨digit.1, Nat.lt_succ_of_le digit.2⟩

end UnitCalc.Text
