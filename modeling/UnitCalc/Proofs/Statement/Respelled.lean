/-
# Spellings of operators in texts

Some operators are written with one sign or with another, or with two. A text is respelled when
operators of it are written with one sign instead. Blocks, inputs in braces, comments and what
stands behind a bar are left as they are, and signs that were apart do not become one operator.

## Main definitions

* `spellings`: operators and how else they are written.
* `Respelled`: two texts that differ in how their operators are written.

## Main results

* `Respelled.split`: the expressions of respelled texts are respelled, and their units are the same.
* `Respelled.dropWhile`: what is left behind a word or a number is respelled.
-/

import UnitCalc.Proofs.Statement.Header

namespace UnitCalc

/-- How operators are written otherwise, and their signs. -/
def spellings : List (List Char × Char) :=
  [(['<', '='], '≤'), (['>', '='], '≥'), (['=', '='], '≡'), (['!', '='], '≠'), ([middleDot], '*')]

/-- Signs that are part of an operator in front of a sign of equality. -/
def joiningSigns : List Char :=
  ['<', '>', '=', '!']

/-- Signs that an operator begins with that may be written otherwise. -/
def spelledSigns : List Char :=
  ['<', '>', '=', '!', middleDot, '≤', '≥', '≡', '≠', '*']

/-- A block, or an input in braces. -/
inductive IsEnclosed : List Char → Prop
  | block {key body inside : List Char} (keyword : '{' ∉ key)
    (closed : Text.braced 0 body = some (inside, [])) : IsEnclosed ('$' :: (key ++ '{' :: body))
  | input {body inside : List Char} (closed : Text.braced 0 body = some (inside, [])) :
    IsEnclosed ('?' :: '{' :: body)

/-- Two texts that differ in how operators are written, outside of blocks and inputs. -/
inductive Respelled : List Char → List Char → Prop
  | refl (cs : List Char) : Respelled cs cs
  | char {c : Char} {cs cs' : List Char} (plain : c ≠ '$' ∧ c ≠ '|')
    (question : c = '?' → cs.head? ≠ some '{')
    (joins : c ∈ joiningSigns → (cs.head? = some '=' ↔ cs'.head? = some '='))
    (rest : Respelled cs cs') : Respelled (c :: cs) (c :: cs')
  | enclosed {front cs cs' : List Char} (enclosed : IsEnclosed front) (bar : '|' ∉ front)
    (rest : Respelled cs cs') : Respelled (front ++ cs) (front ++ cs')
  | operator {long cs cs' : List Char} {sign : Char} (spelled : (long, sign) ∈ spellings)
    (rest : Respelled cs cs') : Respelled (long ++ cs) (sign :: cs')

namespace Text

variable {mark : Char} {front cs : List Char}

/-- A comment begins in front of some characters, or they are none of its business. -/
theorem withoutComment_cases (depth : Int) (front : List Char) :
    (∃ kept, ∀ cs, withoutComment depth (front ++ cs) = kept) ∨
      ∃ depth', ∀ cs, withoutComment depth (front ++ cs) = front ++ withoutComment depth' cs := by
  induction front generalizing depth with
  | nil => exact .inr ⟨depth, fun _ => rfl⟩
  | cons c front ih =>
    simp only [List.cons_append, withoutComment]
    split
    · exact .inl ⟨[], fun _ => rfl⟩
    · obtain ⟨kept, same⟩ | ⟨depth', same⟩ := ih
        (if c == '{' then depth + 1 else if c == '}' then depth - 1 else depth)
      · exact .inl ⟨c :: kept, fun cs => congrArg (c :: ·) (same cs)⟩
      · exact .inr ⟨depth', fun cs => congrArg (c :: ·) (same cs)⟩

theorem head?_withoutComment {c : Char} (other : isQuote c = false) (depth : Int)
    (cs : List Char) : (withoutComment depth cs).head? = some c ↔ cs.head? = some c := by
  cases cs with
  | nil => rfl
  | cons d cs =>
    rw [withoutComment]
    split
    · next quoted =>
      have quote := (Bool.and_eq_true_iff.1 quoted).1
      simp only [List.head?_nil, List.head?_cons, Option.some.injEq, reduceCtorEq, false_iff]
      rintro rfl
      rw [other] at quote
      cases quote
    · rfl

theorem cutAt_append_of_not_mem (outside : mark ∉ front) (cs : List Char) :
    cutAt mark (front ++ cs) = (front ++ (cutAt mark cs).1, (cutAt mark cs).2) := by
  induction front with
  | nil => rfl
  | cons c front ih =>
    rw [List.mem_cons, not_or] at outside
    rw [List.cons_append, cutAt, if_neg (by simpa using Ne.symm outside.1), ih outside.2]
    rfl

theorem head?_cutAt {c : Char} (other : c ≠ mark) (cs : List Char) :
    (cutAt mark cs).1.head? = some c ↔ cs.head? = some c := by
  cases cs with
  | nil => rfl
  | cons d cs =>
    rw [cutAt]
    split
    · next same =>
      rw [beq_iff_eq.1 same]
      simpa using Ne.symm other
    · rfl

/-- What is closed stays closed in front of more characters. -/
theorem braced_append {depth : Nat} {inside after : List Char}
    (closed : braced depth front = some (inside, after)) (cs : List Char) :
    braced depth (front ++ cs) = some (inside, after ++ cs) := by
  induction front generalizing depth inside with
  | nil => cases closed
  | cons c front ih =>
    have inner {depth : Nat} (closed : (braced depth front).map (fun p => (c :: p.1, p.2)) =
        some (inside, after)) : (braced depth (front ++ cs)).map (fun p => (c :: p.1, p.2)) =
        some (inside, after ++ cs) := by
      obtain ⟨⟨part, behind⟩, found, same⟩ := Option.map_eq_some_iff.1 closed
      cases same
      rw [ih found]
      rfl
    rw [List.cons_append]
    unfold braced at closed ⊢
    split at closed
    · exact inner closed
    · cases closed
      rfl
    · exact inner closed
    · exact inner closed

end Text

/-- A block begins with its sign, and so does an input. -/
theorem IsEnclosed.exists_cons {front : List Char} (enclosed : IsEnclosed front) :
    ∃ c rest, front = c :: rest ∧ c ∈ ['$', '?'] := by
  cases enclosed with
  | block => exact ⟨_, _, rfl, by decide⟩
  | input => exact ⟨_, _, rfl, by decide⟩

theorem exists_cons_of_spelled {long : List Char} {sign : Char}
    (spelled : (long, sign) ∈ spellings) :
    ∃ c rest, long = c :: rest ∧ c ∈ spelledSigns ∧ sign ∈ spelledSigns := by
  simp only [spellings, List.mem_cons, List.not_mem_nil, or_false, Prod.mk.injEq] at spelled
  rcases spelled with ⟨rfl, rfl⟩ | ⟨rfl, rfl⟩ | ⟨rfl, rfl⟩ | ⟨rfl, rfl⟩ | ⟨rfl, rfl⟩ <;>
    exact ⟨_, _, rfl, by decide⟩

theorem ordinary_of_spelled {long : List Char} {sign : Char} (spelled : (long, sign) ∈ spellings) :
    ∀ c ∈ sign :: long, Text.isOrdinary c = true := by
  have all : ∀ p ∈ spellings, ∀ c ∈ p.2 :: p.1, Text.isOrdinary c = true := by decide
  exact all _ spelled

namespace Respelled

variable {cs cs' : List Char} {c : Char}

/-- Characters that belong to nothing of this kind. -/
theorem append_left {front : List Char} (plain : ∀ c ∈ front, c ∉ ['$', '?', '|'] ++ joiningSigns)
    (rest : Respelled cs cs') : Respelled (front ++ cs) (front ++ cs') := by
  induction front with
  | nil => exact rest
  | cons c front ih =>
    rw [List.forall_mem_cons] at plain
    have other := plain.1
    simp only [List.cons_append, List.nil_append, List.mem_cons, not_or] at other
    obtain ⟨dollar, question, bar, joining⟩ := other
    exact .char ⟨dollar, bar⟩ (fun same => absurd same question)
      (fun joins => absurd joins joining) (ih plain.2)

theorem length_le (respelled : Respelled cs cs') : cs'.length ≤ cs.length := by
  induction respelled with
  | refl => exact Nat.le_refl _
  | char _ _ _ _ ih => exact Nat.succ_le_succ ih
  | enclosed _ _ _ ih => simpa using ih
  | operator spelled _ ih =>
    obtain ⟨c, rest, rfl, -⟩ := exists_cons_of_spelled spelled
    simp only [List.length_append, List.length_cons]
    omega

/-- Respelled texts begin with the same character, or with signs. -/
theorem head?_iff (respelled : Respelled cs cs') (other : c ∉ spelledSigns) :
    cs.head? = some c ↔ cs'.head? = some c := by
  cases respelled with
  | refl | char => rfl
  | enclosed enclosed =>
    obtain ⟨d, rest, rfl, -⟩ := enclosed.exists_cons
    rfl
  | operator spelled =>
    obtain ⟨d, rest, rfl, within, within'⟩ := exists_cons_of_spelled spelled
    simp only [List.cons_append, List.head?_cons, Option.some.injEq]
    exact ⟨fun same => absurd (same ▸ within) other, fun same => absurd (same ▸ within') other⟩

/-- Behind signs of equality that both texts begin with, they are respelled. -/
theorem tail (respelled : Respelled cs cs') (equality : cs'.head? = some '=') :
    Respelled cs.tail cs'.tail := by
  cases respelled with
  | refl => exact .refl _
  | char _ _ _ rest => exact rest
  | enclosed enclosed =>
    obtain ⟨d, rest, rfl, within⟩ := enclosed.exists_cons
    obtain rfl := Option.some.inj equality
    exact absurd within (by decide)
  | operator spelled =>
    obtain rfl := Option.some.inj equality
    have others : ∀ p ∈ spellings, p.2 ≠ '=' := by decide
    exact absurd rfl (others _ spelled)

/-- Characters of a class without signs are the same at the front of respelled texts, and what
follows them is respelled. -/
theorem dropWhile (respelled : Respelled cs cs') {p : Char → Bool}
    (outside : ∀ c ∈ ['$', '?'] ++ spelledSigns, p c = false) :
    cs.takeWhile p = cs'.takeWhile p ∧ Respelled (cs.dropWhile p) (cs'.dropWhile p) := by
  induction respelled with
  | refl => exact ⟨rfl, .refl _⟩
  | @char c cs cs' plain question joins rest ih =>
    cases holds : p c with
    | true =>
      simp only [List.takeWhile_cons, List.dropWhile_cons, holds, if_true]
      exact ⟨congrArg (c :: ·) ih.1, ih.2⟩
    | false =>
      simp only [List.takeWhile_cons, List.dropWhile_cons, holds]
      exact ⟨rfl, .char plain question joins rest⟩
  | enclosed enclosed bar rest =>
    obtain ⟨d, front, rfl, within⟩ := enclosed.exists_cons
    have holds : p d = false := outside d (List.mem_append_left _ within)
    have rest := Respelled.enclosed enclosed bar rest
    rw [List.cons_append, List.cons_append] at rest ⊢
    simp only [List.takeWhile_cons, List.dropWhile_cons, holds]
    exact ⟨rfl, rest⟩
  | operator spelled rest =>
    have rest := Respelled.operator spelled rest
    obtain ⟨d, long, rfl, within, within'⟩ := exists_cons_of_spelled spelled
    have holds := outside _ (List.mem_append_right _ within)
    have holds' := outside _ (List.mem_append_right _ within')
    rw [List.cons_append] at rest ⊢
    simp only [List.takeWhile_cons, List.dropWhile_cons, holds, holds']
    exact ⟨rfl, rest⟩

theorem withoutComment (respelled : Respelled cs cs') (depth : Int) :
    Respelled (Text.withoutComment depth cs) (Text.withoutComment depth cs') := by
  induction respelled generalizing depth with
  | refl => exact .refl _
  | char plain question joins rest ih =>
    rw [Text.withoutComment, Text.withoutComment]
    split
    · exact .refl _
    · refine .char plain (fun same => ?_) (fun within => ?_) (ih _)
      · rw [ne_eq, Text.head?_withoutComment (by decide)]
        exact question same
      · rw [Text.head?_withoutComment (by decide), Text.head?_withoutComment (by decide)]
        exact joins within
  | @enclosed front _ _ enclosed bar _ ih =>
    obtain ⟨kept, same⟩ | ⟨depth', same⟩ := Text.withoutComment_cases depth front
    · rw [same, same]
      exact .refl _
    · rw [same, same]
      exact .enclosed enclosed bar (ih _)
  | @operator long cs cs' sign spelled rest ih =>
    have ordinary := ordinary_of_spelled spelled
    rw [List.forall_mem_cons] at ordinary
    have respelled := Respelled.operator spelled (ih depth)
    rwa [← Text.withoutComment_append ordinary.2, ← List.singleton_append,
      ← Text.withoutComment_append (List.forall_mem_singleton.2 ordinary.1)] at respelled

theorem cutAt (respelled : Respelled cs cs') :
    Respelled (Text.cutAt '|' cs).1 (Text.cutAt '|' cs').1 ∧
      (Text.cutAt '|' cs).2 = (Text.cutAt '|' cs').2 := by
  induction respelled with
  | refl => exact ⟨.refl _, rfl⟩
  | char plain question joins rest ih =>
    rw [Text.cutAt, Text.cutAt, if_neg (by simpa using plain.2), if_neg (by simpa using plain.2)]
    refine ⟨.char plain (fun same => ?_) (fun within => ?_) ih.1, ih.2⟩
    · rw [ne_eq, Text.head?_cutAt (by decide)]
      exact question same
    · rw [Text.head?_cutAt (by decide), Text.head?_cutAt (by decide)]
      exact joins within
  | enclosed enclosed bar _ ih =>
    rw [Text.cutAt_append_of_not_mem bar, Text.cutAt_append_of_not_mem bar]
    exact ⟨.enclosed enclosed bar ih.1, ih.2⟩
  | @operator long cs cs' sign spelled rest ih =>
    have ordinary := ordinary_of_spelled spelled
    rw [List.forall_mem_cons] at ordinary
    rw [Text.cutAt_append ordinary.2, ← List.singleton_append,
      Text.cutAt_append (List.forall_mem_singleton.2 ordinary.1)]
    exact ⟨.operator spelled ih.1, ih.2⟩

/-- The expressions of respelled texts are respelled, and their units are the same. -/
theorem split (respelled : Respelled cs cs') :
    Respelled (Statement.split cs).1 (Statement.split cs').1 ∧
      (Statement.split cs).2 = (Statement.split cs').2 :=
  (respelled.withoutComment 0).cutAt

end Respelled

end UnitCalc
