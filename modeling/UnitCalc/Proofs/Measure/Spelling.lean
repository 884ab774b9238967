/-
# Spellings of unit expressions

A text spells a list of tokens when it is made of their signs, numbers and names in order, with
blanks anywhere between them. Numbers and names are as long as they can be, so a text spells one
list at most, which is the one that it is split into.

## Main definitions

* `UnitToken.Spells`: a text spells some tokens.

## Main results

* `UnitToken.scan_eq_ok_iff`: a text is split into the tokens that it spells.
-/

import Mathlib.Data.List.TakeWhile
import UnitCalc.Measure.Expression
import UnitCalc.Proofs.Text.Classes

namespace UnitCalc.UnitToken

variable {c : Char} {word cs rest : List Char} {t : UnitToken} {ts : List UnitToken}

/-! ## Steps of a scan -/

theorem scan_blank (blank : Text.isBlank c = true) : scan (c :: cs) = scan cs := by
  rw [scan, if_pos blank]

theorem scan_next (visible : Text.isBlank c = false) (found : next c cs = .ok (t, rest)) :
    scan (c :: cs) = (scan rest).map (t :: ·) := by
  rw [scan, if_neg (by simp [visible])]
  split
  · next failed =>
    rw [found] at failed
    cases failed
  · next found' =>
    rw [found] at found'
    cases found'
    rfl

/-! ## Spelled tokens -/

/-- The signs of operators and brackets. -/
def signs : List (Char × UnitToken) :=
  [('*', .op .mul), ('·', .op .mul), ('/', .op .div), ('^', .op .pow), ('(', .openBracket),
    (')', .closeBracket)]

/-- A character that a number begins with. Its sign is part of it. -/
def beginsNumber (c : Char) : Bool :=
  c.isDigit || c == '-' || c == '.'

/-- A text spells some tokens. -/
inductive Spells : List Char → List UnitToken → Prop
  | done : Spells [] []
  | blank {c : Char} {cs : List Char} {ts : List UnitToken} (blank : Text.isBlank c = true)
      (rest : Spells cs ts) : Spells (c :: cs) ts
  | sign {c : Char} {t : UnitToken} {cs : List Char} {ts : List UnitToken}
      (known : (c, t) ∈ signs) (rest : Spells cs ts) : Spells (c :: cs) (t :: ts)
  | number {c : Char} (word : List Char) {cs : List Char} {ts : List UnitToken}
      (begins : beginsNumber c = true) (goesOn : ∀ d ∈ word, isNumberPart d = true)
      (ends : ∀ d ∈ cs.head?, isNumberPart d = false) (rest : Spells cs ts) :
      Spells (c :: (word ++ cs)) (.number (String.ofList (c :: word)) :: ts)
  | name {c : Char} (word : List Char) {cs : List Char} {ts : List UnitToken}
      (begins : isUnitChar c = true) (goesOn : ∀ d ∈ word, isUnitChar d = true)
      (ends : ∀ d ∈ cs.head?, isUnitChar d = false) (rest : Spells cs ts) :
      Spells (c :: (word ++ cs)) (.name (String.ofList (c :: word)) :: ts)

/-! ## Characters that begin a token -/

/-- The code points of the characters that begin a number or a sign. -/
private def markCodes : List Nat :=
  [0x2A, 0xB7, 0x2F, 0x5E, 0x28, 0x29, 0x2D, 0x2E] ++ List.range' 48 10

private theorem toNat_mem_markCodes (digit : c.isDigit = true) : c.toNat ∈ markCodes := by
  simp only [Char.isDigit, Bool.and_eq_true, decide_eq_true_eq, ge_iff_le,
    UInt32.le_iff_toNat_le] at digit
  exact List.mem_append_right _ (List.mem_range'_1.2 ⟨digit.1, Nat.lt_succ_of_le digit.2⟩)

/-- Names begin neither like numbers nor with signs. -/
theorem isUnitChar_spec (letter : isUnitChar c = true) :
    beginsNumber c = false ∧ (∀ t, (c, t) ∉ signs) ∧ Text.isBlank c = false := by
  have others : c.toNat ∉ markCodes := by
    refine Text.not_mem_of_class letter markCodes ?_
    simp only [isUnitChar, Text.isAlphabetic, Text.inSpans_eq]
    decide +kernel
  have differs {d : Char} (mark : d.toNat ∈ markCodes) : c ≠ d := by
    rintro rfl
    exact others mark
  refine ⟨?_, fun t known => ?_, Text.isBlank_of_class letter ?_⟩
  · have digit : c.isDigit = false :=
      Bool.eq_false_iff.2 fun digit => others (toNat_mem_markCodes digit)
    have minus : c ≠ '-' := differs (by decide)
    have point : c ≠ '.' := differs (by decide)
    simp [beginsNumber, digit, minus, point]
  · have codes : ∀ sign ∈ signs, sign.1.toNat ∈ markCodes := by decide
    exact others (codes _ known)
  · simp only [isUnitChar, Text.isAlphabetic, Text.inSpans_eq]
    decide +kernel

theorem beginsNumber_spec (begins : beginsNumber c = true) :
    (∀ t, (c, t) ∉ signs) ∧ Text.isBlank c = false := by
  refine ⟨fun t known => ?_, Text.isBlank_of_class begins (by decide)⟩
  have none : ∀ sign ∈ signs, beginsNumber sign.1 = false := by decide
  have plain : beginsNumber c = false := none _ known
  rw [begins] at plain
  cases plain

/-! ## The token at the front -/

theorem next_sign (known : (c, t) ∈ signs) : next c cs = .ok (t, cs) := by
  simp only [signs, List.mem_cons, Prod.mk.injEq, List.not_mem_nil, or_false] at known
  rcases known with ⟨rfl, rfl⟩ | ⟨rfl, rfl⟩ | ⟨rfl, rfl⟩ | ⟨rfl, rfl⟩ | ⟨rfl, rfl⟩ | ⟨rfl, rfl⟩ <;>
    rfl

/-- Behind the signs there are numbers and names. -/
theorem next_of_not_sign (other : ∀ t, (c, t) ∉ signs) (cs : List Char) :
    next c cs =
      if beginsNumber c then
        .ok (.number (String.ofList (c :: cs.takeWhile isNumberPart)), cs.dropWhile isNumberPart)
      else if isUnitChar c then
        .ok (.name (String.ofList (c :: cs.takeWhile isUnitChar)), cs.dropWhile isUnitChar)
      else .error (.invalidSymbol c) := by
  have differs : ∀ sign ∈ signs, c ≠ sign.1 := by
    rintro ⟨d, t⟩ known rfl
    exact other t known
  simp only [signs, List.forall_mem_cons] at differs
  obtain ⟨star, dot, slash, caret, opened, closed, -⟩ := differs
  simp only [next, beginsNumber, beq_iff_eq, star, dot, slash, caret, opened, closed, or_self,
    Bool.or_eq_true, if_false]

/-- A word is the longest one in front of what does not go on with it. -/
private theorem span_word {p : Char → Bool} (goesOn : ∀ d ∈ word, p d = true)
    (ends : ∀ d ∈ cs.head?, p d = false) :
    (word ++ cs).takeWhile p = word ∧ (word ++ cs).dropWhile p = cs := by
  rw [List.takeWhile_append_of_pos goesOn, List.dropWhile_append_of_pos goesOn]
  cases cs with
  | nil => simp
  | cons d cs => simp [ends d rfl]

private theorem head?_dropWhile {p : Char → Bool} (cs : List Char) :
    ∀ d ∈ (cs.dropWhile p).head?, p d = false := by
  intro d first
  have stop := List.head?_dropWhile_not p cs
  rw [Option.mem_def.1 first] at stop
  simpa using stop

/-- The token at the front and a spelling of what is left make a spelling. -/
theorem Spells.of_next (found : next c cs = .ok (t, rest)) (spells : Spells rest ts) :
    Spells (c :: cs) (t :: ts) := by
  by_cases sign : ∃ t', (c, t') ∈ signs
  · obtain ⟨t', known⟩ := sign
    rw [next_sign known] at found
    cases found
    exact .sign known spells
  · rw [next_of_not_sign (not_exists.1 sign) cs] at found
    split at found
    · next begins =>
      cases found
      have whole := Spells.number (cs.takeWhile isNumberPart) begins
        (fun d within => List.mem_takeWhile_imp within) (head?_dropWhile cs) spells
      rwa [List.takeWhile_append_dropWhile] at whole
    · split at found
      · next begins =>
        cases found
        have whole := Spells.name (cs.takeWhile isUnitChar) begins
          (fun d within => List.mem_takeWhile_imp within) (head?_dropWhile cs) spells
        rwa [List.takeWhile_append_dropWhile] at whole
      · cases found

/-! ## Whole texts -/

private theorem isBlank_of_sign (known : (c, t) ∈ signs) : Text.isBlank c = false := by
  have visible : ∀ sign ∈ signs, Text.isBlank sign.1 = false := by decide
  exact visible (c, t) known

/-- A text that spells some tokens is split into them. -/
theorem Spells.scan (spells : Spells cs ts) : UnitToken.scan cs = .ok ts := by
  induction spells with
  | done => rw [UnitToken.scan]
  | blank blank _ ih => rw [scan_blank blank, ih]
  | sign known _ ih =>
    rw [scan_next (isBlank_of_sign known) (next_sign known), ih]
    rfl
  | @number c word cs ts begins goesOn ends _ ih =>
    obtain ⟨other, visible⟩ := beginsNumber_spec begins
    obtain ⟨taken, dropped⟩ := span_word goesOn ends
    have found := next_of_not_sign other (word ++ cs)
    rw [if_pos begins, taken, dropped] at found
    rw [scan_next visible found, ih]
    rfl
  | @name c word cs ts begins goesOn ends _ ih =>
    obtain ⟨noNumber, other, visible⟩ := isUnitChar_spec begins
    obtain ⟨taken, dropped⟩ := span_word goesOn ends
    have found := next_of_not_sign other (word ++ cs)
    rw [if_neg (by simp [noNumber]), if_pos begins, taken, dropped] at found
    rw [scan_next visible found, ih]
    rfl

theorem spells_of_scan (split : scan cs = .ok ts) : Spells cs ts := by
  -- The induction is on the text, which each token shortens.
  induction bound : cs.length using Nat.strongRecOn generalizing cs ts with
  | _ n shorter =>
    subst bound
    cases cs with
    | nil =>
      rw [scan] at split
      cases split
      exact .done
    | cons c cs =>
      cases blank : Text.isBlank c with
      | true =>
        rw [scan_blank blank] at split
        exact .blank blank (shorter _ (Nat.lt_succ_self _) split rfl)
      | false =>
        cases found : next c cs with
        | error e =>
          rw [scan, if_neg (by simp [blank])] at split
          grind
        | ok r =>
          obtain ⟨t, rest⟩ := r
          rw [scan_next blank found] at split
          cases behind : scan rest with
          | error e => simp [behind, Except.map] at split
          | ok us =>
            rw [behind] at split
            cases split
            have less := Nat.lt_succ_of_le (length_le_of_next found)
            exact .of_next found (shorter _ less behind rfl)

/-- A text is split into the tokens that it spells, and into no others. -/
theorem scan_eq_ok_iff : scan cs = .ok ts ↔ Spells cs ts :=
  ⟨spells_of_scan, Spells.scan⟩

end UnitCalc.UnitToken
