/-
# Nested braces

In a balanced text every open brace is closed, and no other brace is. A brace is closed behind the
balanced text that follows it, and texts are cut at marks that stand behind a balanced text only, so
that balanced texts which are joined with marks can be told apart again. What stands in braces is
never cut.

## Main definitions

* `Text.Balanced`: the braces of a text match.
* `Text.StandsOutside`: a mark stands in a text outside of braces.
* `Text.Joined`: texts are joined with marks into one.

## Main results

* `Text.braced_eq_some_iff`: a brace is closed behind a balanced text, whatever follows.
* `Text.partsOutside_joined`: joined texts are told apart.
* `Text.exists_part_of_infix`: what stands in braces is within one part.
-/

import UnitCalc.Text.Braces

namespace UnitCalc.Text

/-- Every open brace of a text is closed, and no other brace is. -/
inductive Balanced : List Char → Prop
  | nil : Balanced []
  | char {c : Char} {rest : List Char} (opens : c ≠ '{') (closes : c ≠ '}')
    (balanced : Balanced rest) : Balanced (c :: rest)
  | block {inside rest : List Char} (inner : Balanced inside) (balanced : Balanced rest) :
    Balanced ('{' :: (inside ++ '}' :: rest))

/-- A mark stands outside of braces: the text in front of it is balanced. -/
def StandsOutside (mark : Char) (cs : List Char) : Prop :=
  ∃ front back, Balanced front ∧ cs = front ++ mark :: back

variable {cs front inside after : List Char} {marks : List Char} {depth : Nat} {c mark : Char}

/-! ## Closing a brace -/

theorem braced_cons (opens : c ≠ '{') (closes : c ≠ '}') (depth : Nat) (cs : List Char) :
    braced depth (c :: cs) = (braced depth cs).map fun p => (c :: p.1, p.2) := by
  rw [braced]
  · exact opens
  · exact fun brace _ => closes brace
  · exact fun _ brace _ => closes brace

/-- A balanced text closes no brace in front of it. -/
theorem Balanced.braced_append (balanced : Balanced front) (depth : Nat) (cs : List Char) :
    braced depth (front ++ cs) = (braced depth cs).map fun p => (front ++ p.1, p.2) := by
  induction balanced generalizing depth cs with
  | nil => exact Option.map_id'.symm
  | char opens closes _ ih =>
    rw [List.cons_append, braced_cons opens closes, ih, Option.map_map]
    rfl
  | @block inside rest _ _ inner ih =>
    -- The brace behind `inside` takes back the depth that the one in front of it adds.
    rw [List.cons_append, List.append_assoc, List.cons_append, braced, inner, braced, ih,
      Option.map_map, Option.map_map, Option.map_map]
    congr 1
    funext p
    simp

/-- What closes some open braces but the outermost one: balanced texts, with a brace behind each. -/
inductive Closes : Nat → List Char → Prop
  | balanced {cs : List Char} (balanced : Balanced cs) : Closes 0 cs
  | brace {depth : Nat} {cs rest : List Char} (balanced : Balanced cs)
    (closes : Closes depth rest) :
    Closes (depth + 1) (cs ++ '}' :: rest)

theorem Closes.char (opens : c ≠ '{') (closes : c ≠ '}') (rest : Closes depth cs) :
    Closes depth (c :: cs) := by
  cases rest with
  | balanced balanced => exact .balanced (.char opens closes balanced)
  | brace balanced rest => exact .brace (.char opens closes balanced) rest

theorem Closes.block (inner : Balanced inside) (rest : Closes depth cs) :
    Closes depth ('{' :: (inside ++ '}' :: cs)) := by
  cases rest with
  | balanced balanced => exact .balanced (.block inner balanced)
  | brace balanced rest =>
    have joined := Closes.brace (.block inner balanced) rest
    simpa using joined

/-- The text up to the closing brace, which is as long as it has to be. -/
theorem closes_of_braced (found : braced depth cs = some (inside, after)) :
    Closes depth inside ∧ cs = inside ++ '}' :: after := by
  induction cs generalizing depth inside with
  | nil => cases found
  | cons c rest ih =>
    by_cases opens : c = '{'
    · rw [opens, braced, Option.map_eq_some_iff] at found
      obtain ⟨⟨part, behind⟩, closed, same⟩ := found
      cases same
      obtain ⟨closes, rfl⟩ := ih closed
      cases closes with
      | brace balanced closes => exact ⟨closes.block balanced, by rw [opens]; rfl⟩
    · by_cases closes : c = '}'
      · rw [closes] at found
        cases depth with
        | zero =>
          cases found
          exact ⟨.balanced .nil, by rw [closes]; rfl⟩
        | succ depth =>
          rw [braced, Option.map_eq_some_iff] at found
          obtain ⟨⟨part, behind⟩, closed, same⟩ := found
          cases same
          obtain ⟨within, rfl⟩ := ih closed
          exact ⟨.brace .nil within, by rw [closes]; rfl⟩
      · rw [braced_cons opens closes, Option.map_eq_some_iff] at found
        obtain ⟨⟨part, behind⟩, closed, same⟩ := found
        cases same
        obtain ⟨within, rfl⟩ := ih closed
        exact ⟨within.char opens closes, rfl⟩

/-- A brace is closed behind a balanced text, whatever follows. -/
theorem braced_eq_some_iff :
    braced 0 cs = some (inside, after) ↔ Balanced inside ∧ cs = inside ++ '}' :: after := by
  constructor
  · intro found
    obtain ⟨closes, same⟩ := closes_of_braced found
    cases closes with
    | balanced balanced => exact ⟨balanced, same⟩
  · rintro ⟨balanced, rfl⟩
    rw [balanced.braced_append, braced, Option.map_some, List.append_nil]

/-- A brace that no balanced text behind it leads to the end of is not closed. -/
theorem braced_eq_none_iff :
    braced 0 cs = none ↔ ∀ inside after, Balanced inside → cs ≠ inside ++ '}' :: after := by
  rw [Option.eq_none_iff_forall_ne_some]
  constructor
  · intro open_ inside after balanced same
    exact open_ (inside, after) (braced_eq_some_iff.2 ⟨balanced, same⟩)
  · rintro open_ ⟨inside, after⟩ found
    obtain ⟨balanced, same⟩ := braced_eq_some_iff.1 found
    exact open_ inside after balanced same

/-- A text is balanced when a brace in front of it is closed behind it. -/
theorem balanced_iff : Balanced cs ↔ braced 0 (cs ++ ['}']) = some (cs, []) := by
  rw [braced_eq_some_iff]
  exact (and_iff_left rfl).symm

instance : DecidablePred Balanced :=
  fun _ => decidable_of_iff _ balanced_iff.symm

/-! ## Cutting outside of braces -/

theorem standsOutside_iff :
    StandsOutside mark cs ↔ ∃ i < cs.length, cs[i]? = some mark ∧ Balanced (cs.take i) := by
  constructor
  · rintro ⟨front, back, balanced, rfl⟩
    refine ⟨front.length, by simp, by simp, ?_⟩
    rwa [List.take_left]
  · rintro ⟨i, inside, found, balanced⟩
    refine ⟨cs.take i, cs.drop (i + 1), balanced, ?_⟩
    rw [← (List.getElem?_eq_some_iff.1 found).2, List.getElem_cons_drop, List.take_append_drop]

instance (mark : Char) : DecidablePred (StandsOutside mark) :=
  fun _ => decidable_of_iff _ standsOutside_iff.symm

theorem StandsOutside.cons (opens : c ≠ '{') (closes : c ≠ '}') (stands : StandsOutside mark cs) :
    StandsOutside mark (c :: cs) := by
  obtain ⟨front, back, balanced, rfl⟩ := stands
  exact ⟨c :: front, back, balanced.char opens closes, rfl⟩

theorem StandsOutside.behind_block (inner : Balanced inside) (stands : StandsOutside mark cs) :
    StandsOutside mark ('{' :: (inside ++ '}' :: cs)) := by
  obtain ⟨front, back, balanced, rfl⟩ := stands
  exact ⟨_, back, inner.block balanced, by simp⟩

theorem standsOutside_head (c : Char) (cs : List Char) : StandsOutside c (c :: cs) :=
  ⟨[], cs, .nil, rfl⟩

theorem cutOutside_cons (other : depth = 0 → c ∉ marks) (cs : List Char) :
    cutOutside marks depth (c :: cs) =
      (c :: (cutOutside marks (depthAfter c depth) cs).1,
        (cutOutside marks (depthAfter c depth) cs).2) := by
  rw [cutOutside, if_neg]
  simpa using other

theorem depthAfter_of_ne (opens : c ≠ '{') (closes : c ≠ '}') (depth : Nat) :
    depthAfter c depth = depth := by
  simp [depthAfter, opens, closes]

/-- A balanced text without a mark outside of its braces is not cut, and inside of braces no text
is. -/
theorem Balanced.cutOutside_append (balanced : Balanced front)
    (uncut : depth = 0 → ∀ mark ∈ marks, ¬ StandsOutside mark front) (cs : List Char) :
    cutOutside marks depth (front ++ cs) =
      (front ++ (cutOutside marks depth cs).1, (cutOutside marks depth cs).2) := by
  induction balanced generalizing depth cs with
  | nil => rfl
  | @char c rest opens closes _ ih =>
    have other : depth = 0 → c ∉ marks :=
      fun outside within => uncut outside c within (standsOutside_head c rest)
    have later : depth = 0 → ∀ mark ∈ marks, ¬ StandsOutside mark rest :=
      fun outside mark within stands => uncut outside mark within (stands.cons opens closes)
    rw [List.cons_append, cutOutside_cons other, depthAfter_of_ne opens closes, ih later]
    rfl
  | @block inside rest inner _ ihInner ih =>
    have other : depth = 0 → '{' ∉ marks :=
      fun outside within => uncut outside '{' within (standsOutside_head '{' _)
    have later : depth = 0 → ∀ mark ∈ marks, ¬ StandsOutside mark rest :=
      fun outside mark within stands => uncut outside mark within (stands.behind_block inner)
    have enters : depthAfter '{' depth = depth + 1 := rfl
    have leaves : depthAfter '}' (depth + 1) = depth := rfl
    rw [List.cons_append, List.append_assoc, List.cons_append, cutOutside_cons other, enters,
      ihInner (fun outside => absurd outside depth.succ_ne_zero),
      cutOutside_cons (fun outside => absurd outside depth.succ_ne_zero), leaves, ih later]
    simp

theorem Balanced.cutOutside_mark (balanced : Balanced front)
    (uncut : ∀ mark ∈ marks, ¬ StandsOutside mark front) (within : mark ∈ marks) (cs : List Char) :
    cutOutside marks 0 (front ++ mark :: cs) = (front, some cs) := by
  rw [balanced.cutOutside_append fun _ => uncut, cutOutside, if_pos (by simpa using within),
    List.append_nil]

theorem Balanced.cutOutside_end (balanced : Balanced front)
    (uncut : ∀ mark ∈ marks, ¬ StandsOutside mark front) :
    cutOutside marks 0 front = (front, none) := by
  have cut : cutOutside marks 0 (front ++ []) = _ :=
    balanced.cutOutside_append (fun _ => uncut) []
  rwa [List.append_nil, cutOutside, List.append_nil] at cut

/-- Texts joined into one: behind each of them but the last stands one of the marks of its place. -/
inductive Joined : List (List Char) → List (List Char) → List Char → Prop
  | last (places : List (List Char)) (part : List Char) : Joined places [part] part
  | mark {marks : List Char} {places parts : List (List Char)} {part cs : List Char} {mark : Char}
    (within : mark ∈ marks) (rest : Joined places parts cs) :
    Joined (marks :: places) (part :: parts) (part ++ mark :: cs)

/-- No text has a mark of its place outside of its braces. -/
def Uncut (places parts : List (List Char)) : Prop :=
  ∀ i : Nat, ∀ marks ∈ places[i]?, ∀ part ∈ parts[i]?, ∀ mark ∈ marks, ¬ StandsOutside mark part

variable {places parts : List (List Char)} {part : List Char}

theorem Uncut.head (uncut : Uncut (marks :: places) (part :: parts)) :
    ∀ mark ∈ marks, ¬ StandsOutside mark part :=
  uncut 0 marks rfl part rfl

theorem Uncut.tail (uncut : Uncut (marks :: places) (part :: parts)) : Uncut places parts :=
  fun i => uncut (i + 1)

/-- Balanced texts that are joined are told apart. -/
theorem partsOutside_joined (joined : Joined places parts cs)
    (balanced : ∀ part ∈ parts, Balanced part) (uncut : Uncut places parts) :
    partsOutside places cs = parts := by
  induction joined with
  | last places part =>
    cases places with
    | nil => rfl
    | cons marks places =>
      rw [partsOutside, (balanced part List.mem_cons_self).cutOutside_end uncut.head]
  | @mark marks places parts part cs mark within _ ih =>
    have first : Balanced part := balanced part List.mem_cons_self
    have others : ∀ part ∈ parts, Balanced part :=
      fun part member => balanced part (List.mem_cons_of_mem _ member)
    rw [partsOutside, first.cutOutside_mark uncut.head within]
    exact congrArg (part :: ·) (ih others uncut.tail)

/-! ## What stands in braces -/

/-- Braces and what stands between them are not cut. -/
theorem infix_cutOutside (brace : '{' ∉ marks) (balanced : Balanced inside)
    (within : '{' :: (inside ++ ['}']) <:+: cs) (depth : Nat) :
    '{' :: (inside ++ ['}']) <:+: (cutOutside marks depth cs).1 ∨
      ∃ back ∈ (cutOutside marks depth cs).2, '{' :: (inside ++ ['}']) <:+: back := by
  obtain ⟨front, after, rfl⟩ := within
  induction front generalizing depth with
  | nil =>
    have enters : depthAfter '{' depth = depth + 1 := rfl
    left
    rw [List.nil_append, List.cons_append, List.append_assoc, List.singleton_append,
      cutOutside_cons fun _ => brace, enters,
      balanced.cutOutside_append fun outside => absurd outside depth.succ_ne_zero,
      cutOutside_cons fun outside => absurd outside depth.succ_ne_zero]
    exact ⟨[], _, by simp; rfl⟩
  | cons c front ih =>
    rw [List.cons_append, List.cons_append]
    by_cases cut : depth = 0 ∧ c ∈ marks
    · right
      rw [cutOutside, if_pos (by simpa using cut)]
      exact ⟨_, rfl, front, after, rfl⟩
    · rw [cutOutside_cons fun outside member => cut ⟨outside, member⟩]
      exact (ih (depthAfter c depth)).imp_left List.infix_cons

/-- Braces and what stands between them are within one part. -/
theorem exists_part_of_infix (braces : ∀ marks ∈ places, '{' ∉ marks) (balanced : Balanced inside)
    (within : '{' :: (inside ++ ['}']) <:+: cs) :
    ∃ part ∈ partsOutside places cs, '{' :: (inside ++ ['}']) <:+: part := by
  induction places generalizing cs with
  | nil => exact ⟨cs, List.mem_singleton_self cs, within⟩
  | cons marks places ih =>
    have kept := infix_cutOutside (braces marks List.mem_cons_self) balanced within 0
    have others : ∀ marks ∈ places, '{' ∉ marks :=
      fun marks member => braces marks (List.mem_cons_of_mem _ member)
    rcases cut : cutOutside marks 0 cs with ⟨front, _ | back⟩
    · rw [cut] at kept
      rw [partsOutside, cut]
      rcases kept with within | ⟨_, same, _⟩
      · exact ⟨front, List.mem_singleton_self front, within⟩
      · cases same
    · rw [cut] at kept
      rw [partsOutside, cut]
      rcases kept with within | ⟨_, same, within⟩
      · exact ⟨front, List.mem_cons_self, within⟩
      · cases same
        obtain ⟨part, member, within⟩ := ih others within
        exact ⟨part, List.mem_cons_of_mem _ member, within⟩

/-- Blanks in front of a text are trimmed up to the first character that is none. -/
theorem exists_trimStart (visible : isBlank c = false) (front cs : List Char) :
    ∃ kept, trimStart (front ++ c :: cs) = kept ++ c :: cs := by
  induction front with
  | nil => exact ⟨[], List.dropWhile_cons_of_neg (by simp [visible])⟩
  | cons d front ih =>
    by_cases blank : isBlank d = true
    · rw [List.cons_append, trimStart, List.dropWhile_cons_of_pos blank]
      exact ih
    · exact ⟨d :: front, List.dropWhile_cons_of_neg blank⟩

/-- What begins and ends with visible characters is not trimmed. -/
theorem infix_trimList {first last : Char} (begins : isBlank first = false)
    (ends : isBlank last = false) (within : first :: (inside ++ [last]) <:+: cs) :
    first :: (inside ++ [last]) <:+: trimList cs := by
  obtain ⟨front, back, rfl⟩ := within
  obtain ⟨kept, start⟩ := exists_trimStart begins front (inside ++ [last] ++ back)
  obtain ⟨kept', stop⟩ := exists_trimStart ends back.reverse
    (inside.reverse ++ first :: kept.reverse)
  refine ⟨kept, kept'.reverse, ?_⟩
  have text : front ++ first :: (inside ++ [last]) ++ back =
      front ++ first :: (inside ++ [last] ++ back) := by simp
  have reversed : (kept ++ first :: (inside ++ [last] ++ back)).reverse =
      back.reverse ++ last :: (inside.reverse ++ first :: kept.reverse) := by simp
  rw [trimList, trimEnd, text, start, reversed, stop]
  simp

end UnitCalc.Text
