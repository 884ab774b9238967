/-
# Reading ends

Reading a statement calls itself for the parts of blocks. Every round of the scan moves the cursor,
and what a block is created from is shorter than the text that it was read in, so as many rounds and
as many statements inside of each other as a text has characters suffice for it, whatever it
consists of.

## Main definitions

* `SessionM.parseWithin` reads a statement in a number of rounds, with a number of statements inside
  of each other.

## Main results

* `SessionM.parseWithin_eq`: the bounds are not reached when they are greater than the text is long.
* `SessionM.reading_ends`: rounds move, parts of blocks are shorter, and so reading ends.
-/

import UnitCalc.Proofs.Statement.Rounds

namespace UnitCalc.SessionM

/-- Reads a block from its script; `parse` reads its parts. -/
def readScript (parse : List Char → Bool → SessionM Statement) (method : Method)
    (script : List Char) : SessionM Nat :=
  createBlock (fun part allowed => return (← parse part.1 allowed).program) method
    (Shorter.all script)

/-- Reads a statement with some number of statements inside of each other, and in as many rounds for
each; `stop` and `stuck` are what happens when the rounds or the statements do not suffice. -/
def parseWithin (stop : SessionM Scan) (stuck : SessionM Statement) :
    Nat → List Char → Bool → SessionM Statement
  | 0, _, _ => stuck
  | n + 1, source, allowed => do
    let unit ← parseUnit (Statement.split source).2
    let scan ← Scan.tokenizeWithin stop (readScript (parseWithin stop stuck n)) allowed (n + 1)
      ⟨(Statement.split source).1, 0⟩ {}
    ofScan source unit scan

variable {parse parse' : List Char → Bool → SessionM Statement} {limit n : Nat}

/-- The parts of a block are no longer than its script. -/
theorem readScript_congr {script : List Char} (same : ∀ text allowed,
    text.length ≤ script.length → parse text allowed = parse' text allowed) (method : Method) :
    readScript parse method script = readScript parse' method script := by
  have parts : (fun (part : Shorter (script.length + 1)) allowed =>
      (return (← parse part.1 allowed).program : SessionM (List Token))) =
      fun part allowed => return (← parse' part.1 allowed).program := by
    funext part allowed
    rw [same part.1 allowed (Nat.le_of_lt_succ part.2)]
  rw [readScript, parts]
  rfl

/-- A script that is known to be short is read in the same way. -/
theorem readScript_eq (method : Method) (script : Shorter limit) :
    readScript parse method script.1 =
      createBlock (fun part allowed => return (← parse part.1 allowed).program) method script := by
  have widened := createBlock_widen (Nat.succ_le_of_lt script.2)
    (fun part allowed => return (← parse part.1 allowed).program) method (Shorter.all script.1)
  exact widened.symm

/-- With bounds that are greater than a text is long the text is read, whatever happens beyond. -/
theorem parseWithin_eq (stop : SessionM Scan) (stuck : SessionM Statement) {source : List Char}
    (enough : source.length < n) (allowed : Bool) :
    parseWithin stop stuck n source allowed = parseStatement source allowed := by
  induction n generalizing source allowed with
  | zero => exact absurd enough (Nat.not_lt_zero _)
  | succ n ih =>
    have blocks : (fun method (script : Shorter source.length) =>
        readScript (parseWithin stop stuck n) method script.1) =
        fun method script =>
          createBlock (fun part allowed => return (← parseStatement part.1 allowed).program) method
            script := by
      funext method script
      -- The parts of the script are shorter than the statement, so one bound less suffices.
      have shorter : script.1.length < n :=
        Nat.lt_of_lt_of_le script.2 (Nat.le_of_lt_succ enough)
      rw [readScript_congr fun text allowed le => ih (Nat.lt_of_le_of_lt le shorter) allowed,
        readScript_eq]
    have whole := Statement.length_split source
    rw [parseWithin, parseStatement]
    have rounds (create : Method → List Char → SessionM Nat) (allowed : Bool) (s : Scan) :
        Scan.tokenizeWithin stop create allowed (n + 1) ⟨(Statement.split source).1, 0⟩ s =
          Scan.run source.length (fun method script => create method script.1) allowed
            (Statement.split source).1 whole s :=
      Scan.tokenizeWithin_eq stop (Nat.lt_of_le_of_lt whole enough) whole s
    simp only [rounds, blocks]

/-- Reading ends for every text. A round of the scan ends it or moves the cursor forward, within the
text; what a round reads depends on parts of blocks only that are shorter than the text; and with
bounds on the rounds and on the statements inside of each other that are greater than the text is
long, reading never reaches a bound. -/
theorem reading_ends :
    (∀ (create : Method → List Char → SessionM Nat) allowed (k behind : Cursor) (s s' : Scan)
      (session final : Session),
      outcome (s.round create allowed k) session = (.ok (some (s', behind)), final) →
        behind.text = k.text ∧ k.place < behind.place ∧ behind.place ≤ k.text.length) ∧
    (∀ (parse parse' : List Char → Bool → SessionM Statement) allowed (k : Cursor) (s : Scan),
      (∀ text allowed, text.length < k.text.length → parse text allowed = parse' text allowed) →
        s.round (readScript parse) allowed k = s.round (readScript parse') allowed k) ∧
    (∀ (stop : SessionM Scan) (stuck : SessionM Statement) n source allowed, source.length < n →
      parseWithin stop stuck n source allowed = parseStatement source allowed) := by
  refine ⟨?_, ?_, ?_⟩
  · intro create allowed k behind s s' session final ran
    have leads := Scan.leads_of_round ran
    exact ⟨leads.text, leads.forward, leads.inside⟩
  · intro parse parse' allowed k s same
    refine Scan.round_congr (fun method script shorter => ?_) s
    refine readScript_congr (fun text allowed le => ?_) method
    exact same text allowed (Nat.lt_of_le_of_lt le shorter)
  · intro stop stuck n source allowed enough
    exact parseWithin_eq stop stuck enough allowed

/-- The round that reads a bracket. -/
theorem outcome_round_bracket (session : Session) :
    outcome (({} : Scan).round (fun _ _ => throw .emptyExpression) false ⟨['(', 'x'], 0⟩) session =
      (.ok (some (({} : Scan).openBracket, ⟨['(', 'x'], 1⟩)), session) := by
  have stays : (Cursor.mk ['(', 'x'] 0).skipWhile Text.isBlank = ⟨['(', 'x'], 0⟩ := by
    rw [Cursor.skipWhile_eq]
    rfl
  rw [Scan.round_of_lexeme (c := '(') (by rw [stays]; rfl) (by decide), stays]
  rfl

/-- A bracket moves the cursor by one character, and three rounds suffice for it. -/
theorem reading_ends_bracket :
    Cursor.Leads ⟨['(', 'x'], 0⟩ ⟨['(', 'x'], 1⟩ ∧
    ({} : Scan).round (readScript fun _ _ => throw .emptyExpression) false ⟨['(', 'x'], 0⟩ =
      ({} : Scan).round (readScript fun text _ =>
        if text.length < 2 then throw .emptyExpression else throw .missingOperand) false
        ⟨['(', 'x'], 0⟩ ∧
    parseWithin (throw .emptyExpression) (throw .emptyExpression) 3 ['(', 'x'] false =
      parseStatement ['(', 'x'] false := by
  obtain ⟨moves, shorter, ends⟩ := reading_ends
  obtain ⟨text, forward, inside⟩ :=
    moves _ false ⟨['(', 'x'], 0⟩ _ {} _ _ _ (outcome_round_bracket (Session.start {} default))
  refine ⟨⟨text, forward, inside⟩, shorter _ _ false ⟨['(', 'x'], 0⟩ {} ?_, ends _ _ 3 _ false ?_⟩
  · intro text allowed short
    exact (if_pos short).symm
  · decide

end UnitCalc.SessionM
