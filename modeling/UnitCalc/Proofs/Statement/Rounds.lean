/-
# Scanning in rounds

A statement is scanned in rounds with a cursor. Each round passes the blanks, looks at the character
ahead, and reads what that character begins; it ends the scan at the end of the text, and at a quote
or a bar. The classes of characters choose how to read on, and what is read then has a class of its
own: numbers go on with digits and points, names with letters and digits, blocks up to their closing
brace. The two always agree on the first character, so a round that does not end the scan moves the
cursor. Scanning a text is the same as going through its rounds.

## Main definitions

* `Scan.round` is one round.
* `Scan.tokenizeWithin` is a number of rounds.

## Main results

* `Scan.leads_of_round`: a round moves the cursor, whatever it reads.
* `Scan.round_congr`: a round creates blocks from shorter texts only.
* `Scan.tokenizeWithin_eq`: with more rounds than characters a text is scanned.
-/

import UnitCalc.Proofs.Statement.Spellings
import UnitCalc.Proofs.Text.Cursor

namespace UnitCalc.Scan

open SessionM

/-! ## Rounds -/

/-- A character that a name goes on with: a letter or a digit, and no point. -/
def isNameChar (c : Char) : Bool :=
  c != '.' && (CharClass.of c = .letter || CharClass.of c = .digit)

/-- Reads the number that a cursor stands in front of. -/
def numberAt (complex : Bool) (k : Cursor) (s : Scan) : Except CalcError (Scan × Cursor) := do
  let (digits, behind) := k.takeWhile isNumberChar
  let x ← readNumber digits
  let text := String.ofList digits
  if complex && isImaginaryMark behind.ahead then
    return (s.push (.constant (some { num := ⟨0, x⟩ }) (text ++ "i")), behind.forward 1)
  else return (s.push (.constant (some (.real x)) text), behind)

/-- Reads the word that a cursor stands in front of, and that begins with `first`. -/
def wordAt (first : Char) (k : Cursor) (s : Scan) : SessionM (Scan × Cursor) := do
  if first == '_' then throw (.invalidFirstCharacter first)
  let (letters, behind) := k.takeWhile isNameChar
  return (← s.name first (String.ofList letters) behind.ahead, behind)

/-- The operator that begins with a character, in front of the cursor. -/
def operatorFrom (c : Char) (k : Cursor) : Char × Cursor :=
  match longOperators.lookup c, k.accept? '=' with
  | some long, some behind => (long, behind)
  | _, _ => (if c == middleDot then '*' else c, k)

/-- Reads on behind an exclamation mark. -/
def exclamationAt (allowed : Bool) (k : Cursor) (s : Scan) : Except CalcError (Scan × Cursor) := do
  match k.accept? '=' with
  | some behind => return (← s.operator allowed '≠', behind)
  | none => return (← s.factorial, k)

/-- Reads a block behind its sign. -/
def blockAt (create : Method → List Char → SessionM Nat) (k : Cursor) (s : Scan) :
    SessionM (Scan × Cursor) := do
  let (sign, opening) := k.takeWhile fun c => c != '{'
  if opening.peek?.isNone then throw .blockNotOpened
  let keyword := Text.trim (String.ofList sign)
  match Method.ofKeyword? keyword with
  | none => throw (.unknownMethod ("$" ++ keyword))
  | some method => match opening.braced with
    | (none, _) => throw .blockNotClosed
    | (some script, behind) =>
      let index ← create method script
      return (s.push (.block index method.name), behind)

/-- Reads an input behind its sign: the number in braces, or the next line that was entered. -/
def inputAt (k : Cursor) (s : Scan) : SessionM (Scan × Cursor) := do
  if k.peek? = some '{' then
    match k.braced with
    | (none, _) => throw .missingRightBracket
    | (some inside, behind) =>
      let x ← ofExcept (readNumber inside)
      return (s.push (.input (some (.real x))), behind)
  else
    let session ← get
    match session.isEnabled, session.input with
    | true, line :: lines =>
      set { session with input := lines }
      let x ← ofExcept (readNumber line.toList)
      return (s.push (.input (some (.real x))), k)
    | _, _ => return (s.push (.input none), k)

/-- Reads what begins with the character ahead of a cursor. -/
def lexemeAt (create : Method → List Char → SessionM Nat) (allowed : Bool) (c : Char) (k : Cursor)
    (s : Scan) : SessionM (Scan × Cursor) := do
  match CharClass.of c with
  | .digit => SessionM.read fun session => s.numberAt session.settings.complex k
  | .letter => s.wordAt c k
  | .operator =>
    let (symbol, behind) := operatorFrom c (k.forward 1)
    return (← ofExcept (s.operator allowed symbol), behind)
  | .exclamation => ofExcept (s.exclamationAt allowed (k.forward 1))
  | .openBracket => return (s.openBracket, k.forward 1)
  | .closeBracket => return (s.endOperand .closeBracket, k.forward 1)
  | .separator => return (s.endOperand .separator, k.forward 1)
  | .block => s.blockAt create (k.forward 1)
  | .input => s.inputAt (k.forward 1)
  | .stop | .unknown => throw (.invalidSymbol c)

/-- One round: what was read, and where the next round begins, or nothing when the scan ends. -/
def round (create : Method → List Char → SessionM Nat) (allowed : Bool) (k : Cursor) (s : Scan) :
    SessionM (Option (Scan × Cursor)) := do
  let k := k.skipWhile Text.isBlank
  match k.peek? with
  | none => return none
  | some c =>
    if CharClass.of c = .stop then return none
    else return some (← s.lexemeAt create allowed c k)

/-- Goes through a number of rounds; `stop` is what happens when they do not suffice. -/
def tokenizeWithin (stop : SessionM Scan) (create : Method → List Char → SessionM Nat)
    (allowed : Bool) : Nat → Cursor → Scan → SessionM Scan
  | 0, _, _ => stop
  | n + 1, k, s => do
    match ← s.round create allowed k with
    | none => return s.closeDivisor
    | some (s, behind) => tokenizeWithin stop create allowed n behind s

variable {s : Scan} {k : Cursor} {c : Char} {rest : List Char} {allowed : Bool} {limit n : Nat}
  {create create' : Method → List Char → SessionM Nat}

/-! ## What is read at a cursor -/

/-- The same was read from a text and with a cursor, which moved. -/
structure Matches (k : Cursor) (r : Scan × Shorter n) (p : Scan × Cursor) : Prop where
  scan : r.1 = p.1
  ahead : r.2.1 = p.2.ahead
  leads : k.Leads p.2

/-- A digit or a point begins a number, and numbers go on with both. -/
theorem isNumberChar_of_class (class_ : CharClass.of c = .digit) : isNumberChar c = true := by
  unfold CharClass.of at class_
  split_ifs at class_ with digit
  exact digit

theorem isNameChar_eq (c : Char) : isNameChar c = isWordChar c := by
  have digits : CharClass.of c = .digit ↔ (c.isDigit || c == '.') = true := by
    unfold CharClass.of
    split_ifs with digit <;> simp [digit]
  by_cases point : c = '.'
  · subst point
    decide
  · simp [isNameChar, isWordChar, digits, point, Bool.or_comm]

/-- A cursor behind the characters of a class that the one ahead of it is of. -/
theorem takeWhile_cons {p : Char → Bool} (ahead : k.ahead = c :: rest) (member : p c = true) :
    k.takeWhile p = (c :: rest.takeWhile p, k.forward (rest.takeWhile p).length.succ) ∧
      (k.forward (rest.takeWhile p).length.succ).ahead = rest.dropWhile p := by
  have digits : (c :: rest).takeWhile p = c :: rest.takeWhile p :=
    List.takeWhile_cons_of_pos member
  have passed : k.skipWhile p = k.forward (rest.takeWhile p).length.succ := by
    rw [Cursor.skipWhile_eq, ahead, digits, List.length_cons]
  rw [Cursor.takeWhile_eq, passed, ahead, digits, ← passed, Cursor.ahead_skipWhile, ahead,
    List.dropWhile_cons_of_pos member]
  exact ⟨rfl, rfl⟩

theorem length_takeWhile_add (p : Char → Bool) (cs : List Char) :
    (cs.takeWhile p).length + (cs.dropWhile p).length = cs.length := by
  rw [← List.length_append, List.takeWhile_append_dropWhile]

/-- The cursor behind some characters, which are ahead. -/
theorem leads_of_ahead (ahead : k.ahead = c :: rest) (enough : n ≤ rest.length) :
    k.Leads (k.forward n.succ) :=
  Cursor.leads_forward n.succ_pos (by rw [ahead, List.length_cons]; exact Nat.succ_le_succ enough)

theorem matches_number (ahead : k.ahead = c :: rest) (class_ : CharClass.of c = .digit)
    (complex : Bool) (s : Scan) :
    Agree (Matches k) (s.number complex c rest) (s.numberAt complex k) := by
  obtain ⟨digits, behind⟩ := takeWhile_cons ahead (isNumberChar_of_class class_)
  have lengths := length_takeWhile_add isNumberChar rest
  unfold number numberAt
  rw [digits]
  dsimp only [Shorter.skip]
  rw [behind]
  refine .bind (.self (R := Eq) _ fun _ _ => rfl) ?_
  rintro x - rfl
  by_cases marked : (complex && isImaginaryMark (rest.dropWhile isNumberChar)) = true
  · rw [if_pos marked, if_pos marked]
    -- The mark is one more character that is ahead.
    have more : rest.dropWhile isNumberChar ≠ [] := by
      intro none
      simp [none, isImaginaryMark] at marked
    have positive := List.length_pos_iff.2 more
    refine .ok ⟨rfl, ?_, ?_⟩
    · rw [Cursor.ahead_forward, behind, List.drop_one]
      rfl
    · rw [Cursor.forward_forward]
      exact leads_of_ahead ahead (by omega)
  · rw [if_neg marked, if_neg marked]
    exact .ok ⟨rfl, behind.symm, leads_of_ahead ahead (by omega)⟩

theorem matches_word (ahead : k.ahead = c :: rest) (class_ : CharClass.of c = .letter) (s : Scan) :
    Parallel Eq (Matches k) (s.word c rest) (s.wordAt c k) := by
  have member : isWordChar c = true := by simp [isWordChar, class_]
  obtain ⟨letters, behind⟩ := takeWhile_cons ahead member
  have lengths := length_takeWhile_add isWordChar rest
  have sameClass : isNameChar = isWordChar := funext isNameChar_eq
  unfold word wordAt
  rw [sameClass, letters]
  dsimp only
  rw [behind]
  split
  · exact .throw _
  · refine .bind (.refl _) ?_
    rintro a - rfl
    exact .pure ⟨rfl, behind.symm, leads_of_ahead ahead (by omega)⟩

theorem matches_next (ahead : k.ahead = c :: rest) (s : Scan) :
    Matches (n := rest.length + 1) k (s, .all rest) (s, k.forward 1) :=
  ⟨rfl, (Cursor.ahead_tail ahead).symm, leads_of_ahead ahead (Nat.zero_le _)⟩

/-- The second character of a long operator. -/
theorem matches_second (ahead : k.ahead = c :: '=' :: rest) (s : Scan) :
    Matches (n := ('=' :: rest).length + 1) k (s, (Shorter.all ('=' :: rest)).tail)
      (s, (k.forward 1).forward 1) := by
  refine ⟨rfl, (Cursor.ahead_tail (Cursor.ahead_tail ahead)).symm, ?_⟩
  rw [Cursor.forward_forward]
  exact leads_of_ahead ahead (Nat.succ_le_succ (Nat.zero_le _))

theorem accept?_eq (k : Cursor) (c : Char) :
    k.accept? c = if k.ahead.head? = some c then some (k.forward 1) else none := by
  rw [Cursor.accept?, Cursor.peek?_eq_head?]

theorem matches_operator (ahead : k.ahead = c :: rest) (s : Scan) :
    Parallel Eq (Matches k)
      (do
        let (symbol, after) := operatorAt c rest
        return (← ofExcept (s.operator allowed symbol), after))
      (do
        let (symbol, behind) := operatorFrom c (k.forward 1)
        return (← ofExcept (s.operator allowed symbol), behind)) := by
  have next := Cursor.ahead_tail ahead
  by_cases joined : ∃ long, longOperators.lookup c = some long ∧ rest.head? = some '='
  · obtain ⟨long, found, equality⟩ := joined
    obtain ⟨rest, rfl⟩ := List.head?_eq_some_iff.1 equality
    rw [operatorAt_joined found equality, operatorFrom, found, Cursor.accept?_of_ahead next]
    refine .bind (.refl _) ?_
    rintro a - rfl
    exact .pure (matches_second ahead a)
  · have alone : longOperators.lookup c = none ∨ rest.head? ≠ some '=' := by
      cases found : longOperators.lookup c with
      | none => exact .inl rfl
      | some long => exact .inr fun equality => joined ⟨long, found, equality⟩
    have single : operatorFrom c (k.forward 1) =
        (if c == middleDot then '*' else c, k.forward 1) := by
      rw [operatorFrom, accept?_eq, next]
      rcases alone with found | other
      · rw [found]
      · rw [if_neg other]
        cases longOperators.lookup c <;> rfl
    rw [operatorAt_alone alone, single]
    refine .bind (.refl _) ?_
    rintro a - rfl
    exact .pure (matches_next ahead a)

theorem matches_exclamation (ahead : k.ahead = c :: rest) (s : Scan) :
    Agree (Matches k) (s.exclamation allowed rest) (s.exclamationAt allowed (k.forward 1)) := by
  have next := Cursor.ahead_tail ahead
  unfold exclamation exclamationAt
  rw [accept?_eq, next]
  split
  · next equality =>
    obtain ⟨rest, rfl⟩ := List.head?_eq_some_iff.1 equality
    rw [if_pos equality]
    refine .bind (.self (R := Eq) _ fun _ _ => rfl) ?_
    rintro a - rfl
    exact .ok (matches_second ahead a)
  · next other =>
    rw [if_neg other]
    refine .bind (.self (R := Eq) _ fun _ _ => rfl) ?_
    rintro a - rfl
    exact .ok (matches_next ahead a)

theorem cutAt_eq (mark : Char) (cs : List Char) :
    Text.cutAt mark cs =
      (cs.takeWhile fun c => c != mark, (cs.dropWhile fun c => c != mark).tail?) := by
  induction cs with
  | nil => rfl
  | cons c cs ih =>
    by_cases same : c = mark
    · simp [Text.cutAt, same]
    · simp [Text.cutAt, same, ih]

/-- A cursor stops in front of the mark that a text is cut at. -/
theorem ahead_skipWhile_ne {mark : Char} {body : List Char}
    (opened : (Text.cutAt mark k.ahead).2 = some body) :
    (k.skipWhile fun c => c != mark).ahead = mark :: body := by
  rw [cutAt_eq] at opened
  rw [Cursor.ahead_skipWhile]
  cases left : k.ahead.dropWhile fun c => c != mark with
  | nil => rw [left] at opened; cases opened
  | cons d cs =>
    rw [left] at opened
    have stops := List.head_dropWhile_not (l := k.ahead) (fun c => c != mark) (by simp [left])
    simp only [left, List.head_cons, bne_eq_false_iff_eq] at stops
    rw [stops, Option.some.inj opened]

/-- Behind braces that were closed the cursor has moved on. -/
theorem leads_behind_braces {body inside after : List Char} (ahead : k.ahead = c :: rest)
    (enough : n + (body.length + 1) ≤ rest.length + 1)
    (closed : Text.braced 0 body = some (inside, after)) :
    k.Leads ((k.forward n).forward (inside.length + 2)) := by
  have lengths := Text.length_braced closed
  rw [Cursor.forward_forward]
  exact leads_of_ahead (n := n + (inside.length + 1)) ahead (by omega)

theorem matches_block (ahead : k.ahead = c :: rest) (within : rest.length < limit) (s : Scan) :
    Parallel Eq (Matches k)
      (s.block limit (fun method script => create method script.1) rest within)
      (s.blockAt create (k.forward 1)) := by
  have next := Cursor.ahead_tail ahead
  have sign : ((k.forward 1).takeWhile fun c => c != '{') =
      ((Text.cutAt '{' rest).1, (k.forward 1).skipWhile fun c => c != '{') := by
    rw [Cursor.takeWhile_eq, next, cutAt_eq]
  have lengths := length_takeWhile_add (fun c => c != '{') rest
  unfold block blockAt
  rw [sign]
  split
  · next opened =>
    have stops : ((k.forward 1).skipWhile fun c => c != '{').peek? = none := by
      rw [Cursor.peek?_eq_head?, Cursor.ahead_skipWhile, next]
      rw [cutAt_eq] at opened
      cases left : rest.dropWhile fun c => c != '{' with
      | nil => rfl
      | cons d cs => rw [left] at opened; cases opened
    dsimp only
    rw [stops]
    exact .throw _
  · next body opened =>
    have opening : ((k.forward 1).skipWhile fun c => c != '{').ahead = '{' :: body :=
      ahead_skipWhile_ne (by rw [next]; exact opened)
    dsimp only
    rw [Cursor.peek?_of_ahead opening]
    rw [if_neg (by simp)]
    cases Method.ofKeyword? (Text.trim (String.ofList (Text.cutAt '{' rest).1)) with
    | none => exact .throw _
    | some method =>
      dsimp only
      split
      · next isOpen =>
        have stays := Cursor.braced_of_none fun cs same => by
          rw [opening] at same
          cases same
          exact isOpen
        rw [stays]
        exact .throw _
      · next inside after closed =>
        rw [Cursor.braced_of_some opening closed]
        refine .bind (.refl _) ?_
        rintro index - rfl
        refine .pure ⟨rfl, (Cursor.ahead_behind_braces opening closed).symm, ?_⟩
        rw [Cursor.ahead_skipWhile, next] at opening
        rw [opening, List.length_cons] at lengths
        have moved : (k.forward 1).skipWhile (fun c => c != '{') =
            k.forward (1 + (rest.takeWhile fun c => c != '{').length) := by
          rw [Cursor.skipWhile_eq, next, Cursor.forward_forward]
        dsimp only
        rw [moved]
        refine leads_behind_braces ahead ?_ closed
        omega

theorem matches_input (ahead : k.ahead = c :: rest) (s : Scan) :
    Parallel Eq (Matches k) (s.input rest) (s.inputAt (k.forward 1)) := by
  have next := Cursor.ahead_tail ahead
  have peek : (k.forward 1).peek? = rest.head? := by rw [Cursor.peek?_eq_head?, next]
  unfold input inputAt
  rw [peek]
  split
  · next body =>
    rw [List.head?_cons, if_pos rfl]
    split
    · next isOpen =>
      have stays := Cursor.braced_of_none fun cs same => by
        rw [next] at same
        cases same
        exact isOpen
      rw [stays]
      exact .throw _
    · next inside after closed =>
      rw [Cursor.braced_of_some next closed]
      refine .bind (.refl _) ?_
      rintro x - rfl
      refine .pure ⟨rfl, (Cursor.ahead_behind_braces next closed).symm, ?_⟩
      refine leads_behind_braces ahead ?_ closed
      rw [List.length_cons, Nat.add_comm]
  · next other =>
    rw [if_neg fun brace => (List.head?_eq_some_iff.1 brace).elim other]
    refine .bind (.refl _) ?_
    rintro session - rfl
    cases enabled : session.isEnabled with
    | false => exact .pure (matches_next ahead _)
    | true =>
      cases lines : session.input with
      | nil => exact .pure (matches_next ahead _)
      | cons line lines =>
        refine .bind (.refl _) fun _ _ _ => .bind (.refl _) ?_
        rintro x - rfl
        exact .pure (matches_next ahead _)

/-- What begins with a character is the same for a text and for a cursor, and the cursor moves. -/
theorem matches_lexeme (create : Method → List Char → SessionM Nat) (allowed : Bool)
    (ahead : k.ahead = c :: rest) (visible : Text.isBlank c = false) (within : rest.length < limit)
    (s : Scan) :
    Parallel Eq (Matches k)
      (s.lexeme limit (fun method script => create method script.1) allowed c rest within)
      (s.lexemeAt create allowed c k) := by
  unfold Scan.lexeme lexemeAt
  rw [if_neg (by rw [visible]; decide)]
  cases class_ : CharClass.of c with
  | digit => exact .readHere fun session => matches_number ahead class_ session.settings.complex s
  | letter => exact matches_word ahead class_ s
  | operator => exact matches_operator ahead s
  | exclamation => exact .result (matches_exclamation ahead s)
  | openBracket => exact .pure (matches_next ahead _)
  | closeBracket => exact .pure (matches_next ahead _)
  | separator => exact .pure (matches_next ahead _)
  | block => exact matches_block ahead within s
  | input => exact matches_input ahead s
  | stop | unknown => exact .throw _

/-! ## Rounds move -/

/-- Behind blanks a cursor stands in front of a character that is none. -/
theorem exists_ahead (next : (k.skipWhile Text.isBlank).peek? = some c) :
    ∃ rest, (k.skipWhile Text.isBlank).ahead = c :: rest ∧ Text.isBlank c = false := by
  rw [Cursor.peek?_eq_head?, List.head?_eq_some_iff] at next
  obtain ⟨rest, ahead⟩ := next
  have left := ahead
  rw [Cursor.ahead_skipWhile] at left
  have visible := List.head_dropWhile_not (l := k.ahead) Text.isBlank (by simp [left])
  simp only [left, List.head_cons] at visible
  exact ⟨rest, ahead, visible⟩

theorem round_of_end (next : (k.skipWhile Text.isBlank).peek? = none) :
    s.round create allowed k = pure none := by
  rw [round, next]

theorem round_of_stop (next : (k.skipWhile Text.isBlank).peek? = some c)
    (stops : CharClass.of c = .stop) : s.round create allowed k = pure none := by
  rw [round, next]
  exact if_pos stops

theorem round_of_lexeme (next : (k.skipWhile Text.isBlank).peek? = some c)
    (goes : CharClass.of c ≠ .stop) : s.round create allowed k = do
      return some (← s.lexemeAt create allowed c (k.skipWhile Text.isBlank)) := by
  rw [round, next]
  exact if_neg goes

/-- A round that does not end the scan moves the cursor, whatever it reads. -/
theorem leads_of_round {session final : Session} {s' : Scan} {behind : Cursor}
    (ran : outcome (s.round create allowed k) session = (.ok (some (s', behind)), final)) :
    k.Leads behind := by
  cases next : (k.skipWhile Text.isBlank).peek? with
  | none =>
    rw [round_of_end next] at ran
    cases ran
  | some c =>
    by_cases stops : CharClass.of c = .stop
    · rw [round_of_stop next stops] at ran
      cases ran
    · rw [round_of_lexeme next stops] at ran
      obtain ⟨p, later, read, ended⟩ := exists_of_bind_ok ran
      cases ended
      obtain ⟨rest, ahead, visible⟩ := exists_ahead next
      have within : rest.length < rest.length + 1 := Nat.lt_succ_self _
      have agree := (matches_lexeme create allowed ahead visible within s session session rfl).2
      rw [read] at agree
      generalize (outcome _ session).1 = r at agree
      cases agree with
      | ok same =>
        have leads := same.leads
        rw [Cursor.skipWhile_eq] at leads
        exact ⟨leads.text, Nat.lt_of_le_of_lt (Nat.le_add_right _ _) leads.forward, leads.inside⟩

/-- A round creates blocks from scripts that are shorter than the text. -/
theorem round_congr (same : ∀ method script, script.length < k.text.length →
    create method script = create' method script) (s : Scan) :
    s.round create allowed k = s.round create' allowed k := by
  have blocks : ∀ k', k'.text = k.text → s.blockAt create k' = s.blockAt create' k' := by
    intro k' text
    unfold blockAt
    rw [Cursor.takeWhile_eq]
    dsimp only
    split
    · rfl
    · split
      · rfl
      · next method known =>
        split
        · rfl
        · next script behind read =>
          have shorter := Cursor.length_of_braced read
          rw [Cursor.skipWhile_eq] at shorter
          rw [same method script (text ▸ shorter)]
  have lexemes : ∀ c k', k'.text = k.text →
      s.lexemeAt create allowed c k' = s.lexemeAt create' allowed c k' := by
    intro c k' text
    unfold lexemeAt
    rw [blocks (k'.forward 1) text]
  have text : (k.skipWhile Text.isBlank).text = k.text := by
    rw [Cursor.skipWhile_eq]
    rfl
  unfold round
  simp only [lexemes _ _ text]

/-! ## All rounds -/

theorem ne_stop_of_isBlank (blank : Text.isBlank c = true) : CharClass.of c ≠ .stop := by
  intro class_
  unfold CharClass.of at class_
  split_ifs at class_ with digit mark opens closes ends block input quote
  simp only [Text.isQuote, Bool.or_eq_true, beq_iff_eq] at quote
  rcases quote with (rfl | rfl) | rfl <;> revert blank <;> decide

/-- Blanks in front of a text are passed. -/
theorem run_dropBlanks {create : Method → Shorter limit → SessionM Nat} {cs left : List Char}
    (behind : cs.dropWhile Text.isBlank = left) (within : cs.length ≤ limit)
    (within' : left.length ≤ limit) :
    run limit create allowed cs within s = run limit create allowed left within' s := by
  induction cs with
  | nil =>
    subst behind
    rfl
  | cons c rest ih =>
    by_cases blank : Text.isBlank c = true
    · rw [List.dropWhile_cons_of_pos blank] at behind
      rw [run_blank (ne_stop_of_isBlank blank) blank]
      exact ih behind _
    · rw [List.dropWhile_cons_of_neg blank] at behind
      subst behind
      rfl

/-- With more rounds than characters ahead a text is scanned, whatever happens when the rounds do
not suffice. -/
theorem tokenizeWithin_eq (stop : SessionM Scan) (enough : k.ahead.length < n)
    (within : k.ahead.length ≤ limit) (s : Scan) :
    tokenizeWithin stop create allowed n k s =
      run limit (fun method script => create method script.1) allowed k.ahead within s := by
  induction n generalizing k s with
  | zero => exact absurd enough (Nat.not_lt_zero _)
  | succ n ih =>
    have behind : k.ahead.dropWhile Text.isBlank = (k.skipWhile Text.isBlank).ahead :=
      (Cursor.ahead_skipWhile _ _).symm
    have fewer : (k.skipWhile Text.isBlank).ahead.length ≤ k.ahead.length := by
      rw [← behind]
      exact (List.dropWhile_sublist _).length_le
    rw [tokenizeWithin]
    cases next : (k.skipWhile Text.isBlank).peek? with
    | none =>
      rw [Cursor.peek?_eq_head?, List.head?_eq_none_iff] at next
      rw [run_dropBlanks (behind.trans next) within (Nat.zero_le _), run,
        round_of_end (by rw [Cursor.peek?_eq_head?, next]; rfl), pure_bind]
    | some c =>
      obtain ⟨rest, ahead, visible⟩ := exists_ahead next
      rw [run_dropBlanks (behind.trans ahead) within (Nat.le_trans (ahead ▸ fewer) within), run]
      by_cases stops : CharClass.of c = .stop
      · rw [round_of_stop next stops, if_pos stops, pure_bind]
      · rw [round_of_lexeme next stops, if_neg stops, bind_assoc]
        refine (Parallel.eq (.bind (matches_lexeme create allowed ahead visible _ s) ?_)).symm
        rintro ⟨a, after, shorter⟩ ⟨a', later⟩ ⟨same, after', leads⟩
        cases same
        cases after'
        rw [pure_bind]
        dsimp only
        -- One round less is left for a text that is shorter by a character at least.
        have left : later.ahead.length < n :=
          Nat.lt_of_lt_of_le leads.length_ahead (Nat.le_trans fewer (Nat.le_of_lt_succ enough))
        rw [ih left]
        exact .refl _

end UnitCalc.Scan
