/-
# Cursors

A cursor is a place in a text. It moves over characters, over runs of them and over what stands in
braces; when braces are not closed it goes back to where it was. What is ahead of a cursor is a text
of its own, and moving reads the same from it.

## Main definitions

* `Cursor` is a place in a text, and `Cursor.ahead` is what stands behind it.
* `Cursor.takeWhile` reads the characters of a class, and `Cursor.braced` what stands in braces.

## Main results

* `Cursor.ahead_skipWhile`, `Cursor.braced_of_some`, `Cursor.braced_of_none`: a cursor reads what is
  ahead of it.
-/

import UnitCalc.Proofs.Text.Nesting

namespace UnitCalc

/-- A place in a text. -/
structure Cursor where
  text : List Char
  place : Nat

namespace Cursor

/-- The characters that were not read. -/
def ahead (k : Cursor) : List Char :=
  k.text.drop k.place

/-- The next character. -/
def peek? (k : Cursor) : Option Char :=
  k.text[k.place]?

/-- The cursor behind some more characters. -/
def forward (k : Cursor) (n : Nat) : Cursor :=
  { k with place := k.place + n }

/-- The cursor behind a character, if that is the next one. -/
def accept? (k : Cursor) (c : Char) : Option Cursor :=
  if k.peek? = some c then some (k.forward 1) else none

/-- The characters between two places. -/
def upTo (k later : Cursor) : List Char :=
  k.ahead.take (later.place - k.place)

/-- The cursor behind the characters of a class. -/
def skipWhile (p : Char → Bool) (k : Cursor) : Cursor :=
  if _inside : k.place < k.text.length then
    if p k.text[k.place] then skipWhile p (k.forward 1) else k
  else k
termination_by k.text.length - k.place
decreasing_by
  simp only [forward]
  omega

/-- The characters of a class, and the cursor behind them. -/
def takeWhile (p : Char → Bool) (k : Cursor) : List Char × Cursor :=
  (k.upTo (k.skipWhile p), k.skipWhile p)

/-- Reads on to the brace that closes the outermost one of `depth + 1` open braces: whether there is
one, and the cursor behind it, or else at the end of the text. -/
def close (depth : Nat) (k : Cursor) : Bool × Cursor :=
  if _inside : k.place < k.text.length then
    if k.text[k.place] = '{' then close (depth + 1) (k.forward 1)
    else if k.text[k.place] = '}' then
      if depth = 0 then (true, k.forward 1) else close (depth - 1) (k.forward 1)
    else close depth (k.forward 1)
  else (false, k)
termination_by k.text.length - k.place
decreasing_by
  all_goals
    simp only [forward]
    omega

/-- What stands in the braces that begin here, and the cursor behind them. Without such braces, or
when they are not closed, the cursor goes back. -/
def braced (k : Cursor) : Option (List Char) × Cursor :=
  match k.accept? '{' with
  | none => (none, k)
  | some inner =>
    let (isClosed, last) := inner.close 0
    if isClosed then (some (inner.upTo { last with place := last.place - 1 }), last)
    else (none, { last with place := k.place })

variable {k : Cursor} {c : Char} {cs rest : List Char} {n : Nat} {p : Char → Bool}

theorem peek?_eq_head? (k : Cursor) : k.peek? = k.ahead.head? := by
  rw [peek?, ahead, List.head?_drop]

theorem ahead_forward (k : Cursor) (n : Nat) : (k.forward n).ahead = k.ahead.drop n := by
  rw [ahead, ahead, List.drop_drop]
  rfl

theorem forward_forward (k : Cursor) (m n : Nat) : (k.forward m).forward n = k.forward (m + n) := by
  simp only [forward, Nat.add_assoc]

theorem forward_zero (k : Cursor) : k.forward 0 = k := rfl

theorem upTo_forward (k : Cursor) (n : Nat) : k.upTo (k.forward n) = k.ahead.take n := by
  rw [upTo, forward, Nat.add_sub_cancel_left]

theorem peek?_of_ahead (ahead : k.ahead = c :: rest) : k.peek? = some c := by
  rw [peek?_eq_head?, ahead, List.head?_cons]

theorem ahead_tail (ahead : k.ahead = c :: rest) : (k.forward 1).ahead = rest := by
  rw [ahead_forward, ahead, List.drop_one, List.tail_cons]

theorem accept?_of_ahead (ahead : k.ahead = c :: rest) : k.accept? c = some (k.forward 1) :=
  if_pos (peek?_of_ahead ahead)

theorem accept?_of_ne (other : k.ahead.head? ≠ some c) : k.accept? c = none := by
  rw [← peek?_eq_head?] at other
  exact if_neg other

/-- A cursor that has nothing ahead of it is at the end of its text. -/
theorem ahead_eq_nil_iff : k.ahead = [] ↔ ¬ k.place < k.text.length := by
  rw [ahead, List.drop_eq_nil_iff, Nat.not_lt]

theorem exists_of_ahead (ahead : k.ahead = c :: rest) :
    ∃ inside : k.place < k.text.length, k.text[k.place] = c :=
  List.getElem?_eq_some_iff.1 (peek?_of_ahead ahead)

/-- A cursor passes as many characters of a class as are ahead of it. -/
theorem skipWhile_eq (p : Char → Bool) (k : Cursor) :
    k.skipWhile p = k.forward (k.ahead.takeWhile p).length := by
  generalize same : k.ahead = cs
  induction cs generalizing k with
  | nil =>
    rw [skipWhile, dif_neg (ahead_eq_nil_iff.1 same)]
    rfl
  | cons c rest ih =>
    obtain ⟨inside, next⟩ := exists_of_ahead same
    rw [skipWhile, dif_pos inside, next]
    by_cases member : p c = true
    · rw [if_pos member, List.takeWhile_cons_of_pos member, ih _ (ahead_tail same),
        forward_forward, List.length_cons, Nat.add_comm]
    · rw [if_neg member, List.takeWhile_cons_of_neg member, List.length_nil, forward_zero]

theorem takeWhile_eq (p : Char → Bool) (k : Cursor) :
    k.takeWhile p = (k.ahead.takeWhile p, k.skipWhile p) := by
  rw [takeWhile, skipWhile_eq, upTo_forward,
    ← List.prefix_iff_eq_take.1 (List.takeWhile_prefix p)]

theorem ahead_skipWhile (p : Char → Bool) (k : Cursor) :
    (k.skipWhile p).ahead = k.ahead.dropWhile p := by
  have behind : (k.ahead.takeWhile p ++ k.ahead.dropWhile p).drop (k.ahead.takeWhile p).length =
      k.ahead.dropWhile p := List.drop_left
  rwa [List.takeWhile_append_dropWhile, ← ahead_forward, ← skipWhile_eq] at behind

/-- The braces ahead of a cursor are closed as those of a text are. -/
theorem close_eq (depth : Nat) (k : Cursor) :
    k.close depth = match Text.braced depth k.ahead with
      | none => (false, k.forward k.ahead.length)
      | some (inside, _) => (true, k.forward (inside.length + 1)) := by
  generalize same : k.ahead = cs
  induction cs generalizing k depth with
  | nil =>
    rw [close, dif_neg (ahead_eq_nil_iff.1 same)]
    rfl
  | cons c rest ih =>
    obtain ⟨inside, next⟩ := exists_of_ahead same
    -- Behind any character but the last brace the search goes on, one character further.
    have goesOn (depth : Nat) : (k.forward 1).close depth =
        match (Text.braced depth rest).map fun p => (c :: p.1, p.2) with
          | none => (false, k.forward (c :: rest).length)
          | some (inside, _) => (true, k.forward (inside.length + 1)) := by
      rw [ih _ _ (ahead_tail same)]
      cases Text.braced depth rest with
      | none => simp only [Option.map_none, List.length_cons, forward_forward, Nat.add_comm 1]
      | some => simp only [Option.map_some, List.length_cons, forward_forward, Nat.add_comm 1]
    rw [close, dif_pos inside, next]
    by_cases opens : c = '{'
    · subst opens
      rw [if_pos rfl, goesOn, Text.braced]
    · by_cases closes : c = '}'
      · subst closes
        rw [if_neg opens, if_pos rfl]
        cases depth with
        | zero => rfl
        | succ depth => exact goesOn depth
      · rw [if_neg opens, if_neg closes, goesOn, Text.braced_cons opens closes]

/-- A cursor reads what stands in braces, and stops behind the closing one. -/
theorem braced_of_some {inside after : List Char} (ahead : k.ahead = '{' :: rest)
    (closed : Text.braced 0 rest = some (inside, after)) :
    k.braced = (some inside, k.forward (inside.length + 2)) := by
  have text := (Text.closes_of_braced closed).2
  have reads : (k.forward 1).upTo ((k.forward 1).forward inside.length) = inside := by
    rw [upTo_forward, ahead_tail ahead, text, List.take_left]
  have stops : (k.forward 1).close 0 = (true, k.forward (inside.length + 2)) := by
    rw [close_eq, ahead_tail ahead, closed]
    simp only [forward_forward, Nat.add_comm 1]
  have before : { k.forward (inside.length + 2) with place := k.place + (inside.length + 2) - 1 } =
      (k.forward 1).forward inside.length := by
    simp only [forward, Cursor.mk.injEq, true_and]
    omega
  rw [braced, accept?_of_ahead ahead]
  dsimp only
  rw [stops, if_pos rfl]
  exact Prod.ext (congrArg some (before ▸ reads)) rfl

theorem ahead_behind_braces {inside after : List Char} (ahead : k.ahead = '{' :: rest)
    (closed : Text.braced 0 rest = some (inside, after)) :
    (k.forward (inside.length + 2)).ahead = after := by
  have text : '{' :: rest = ('{' :: (inside ++ ['}'])) ++ after := by
    rw [(Text.closes_of_braced closed).2]
    simp
  rw [ahead_forward, ahead, text]
  exact List.drop_left' (by simp)

/-- When braces are not closed, the cursor stays where it was. -/
theorem braced_of_none (isOpen : ∀ rest, k.ahead = '{' :: rest → Text.braced 0 rest = none) :
    k.braced = (none, k) := by
  rw [braced]
  by_cases opens : k.ahead.head? = some '{'
  · obtain ⟨rest, ahead⟩ := List.head?_eq_some_iff.1 opens
    rw [accept?_of_ahead ahead]
    simp only [close_eq, ahead_tail ahead, isOpen rest ahead]
    rfl
  · rw [accept?_of_ne opens]

/-- What stands in braces is shorter than the text. -/
theorem length_of_braced {inside : List Char} {behind : Cursor}
    (read : k.braced = (some inside, behind)) : inside.length < k.text.length := by
  by_cases closed : ∃ rest inside after, k.ahead = '{' :: rest ∧
      Text.braced 0 rest = some (inside, after)
  · obtain ⟨rest, inside', after, ahead, closed⟩ := closed
    rw [braced_of_some ahead closed] at read
    cases read
    have shorter := Text.length_braced closed
    have whole := congrArg List.length ahead
    rw [Cursor.ahead, List.length_drop, List.length_cons] at whole
    omega
  · have stays := braced_of_none (k := k) fun rest ahead => by
      cases found : Text.braced 0 rest with
      | none => rfl
      | some parts => exact absurd ⟨rest, parts.1, parts.2, ahead, found⟩ closed
    rw [stays] at read
    cases read

/-- A later place in the same text. -/
structure Leads (k later : Cursor) : Prop where
  text : later.text = k.text
  forward : k.place < later.place
  inside : later.place ≤ k.text.length

theorem leads_forward (moves : 0 < n) (enough : n ≤ k.ahead.length) : k.Leads (k.forward n) := by
  rw [ahead, List.length_drop] at enough
  refine ⟨rfl, ?_, ?_⟩ <;> simp only [forward] <;> omega

theorem Leads.length_ahead {later : Cursor} (leads : k.Leads later) :
    later.ahead.length < k.ahead.length := by
  have forward := leads.forward
  have inside := leads.inside
  rw [ahead, ahead, List.length_drop, List.length_drop, leads.text]
  omega

end Cursor

end UnitCalc
