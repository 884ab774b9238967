/-
# Scanning

A scan makes cells for new names, takes lines of input and creates blocks, and leaves the session
alone otherwise. Its tokens are plain, or variables whose cells are found by name, or calls of
functions that are found by name, or blocks that were created. A call of a function that is not
found has the name that the statement begins with. So what holds of these holds of all tokens,
however the session changes meanwhile.

## Main definitions

* `Scanning E J C`: sessions of `J` may change by `E`, and tokens may be added to lists in `C`.
* `Reading E J K`: sessions of `J` may change by `E`, and `K` holds of what names are read into.
* `Scan.isWord`: a name that functions and units can have.
* `Scan.Consists K`: all tokens that were read are in `K`.
* `Session.Knows`: the name or the call of a token is one of the session.

## Main results

* `Reading.scanning`, `Reading.headed`: what holds of every token holds of a scan.
* `Scan.run_adds`: what a session is after a scan, and what was read.
* `Scan.run_congr`: a scan without blocks does not create any.
-/

import UnitCalc.Proofs.Postfix.References
import UnitCalc.Proofs.Session.Extension
import UnitCalc.Proofs.Session.Outcome
import UnitCalc.Statement.Scan
import UnitCalc.Token.Legality

namespace UnitCalc

open SessionM

/-- The token belongs to no cell, function or block. -/
def Token.isFree : Token → Bool
  | .variable _ _ | .call _ _ _ | .block _ _ => false
  | _ => true

theorem Token.isForward_of_isFree {t : Token} (free : t.isFree = true) : t.isForward = false := by
  cases t with
  | call => cases free
  | _ => rfl

namespace Scan

@[simp]
theorem tokens_push (s : Scan) (t : Token) : (s.push t).tokens = s.tokens ++ [t] :=
  List.reverse_cons

/-- A name that functions and units can have: it begins with a letter, or with a sign of units. -/
def isWord (name : String) : Bool :=
  match name.toList with
  | [] => false
  | c :: rest => CharClass.of c = .letter && c != '_' && rest.all isWordChar

theorem exists_of_isWord {name : String} (isWord : isWord name = true) :
    ∃ c rest, name = String.ofList (c :: rest) ∧ CharClass.of c = .letter ∧ c ≠ '_' ∧
      ∀ d ∈ rest, isWordChar d = true := by
  unfold Scan.isWord at isWord
  split at isWord
  · cases isWord
  · next c rest same =>
    simp only [Bool.and_eq_true, decide_eq_true_eq, bne_iff_ne, List.all_eq_true] at isWord
    exact ⟨c, rest, by rw [← same, String.ofList_toList], isWord.1.1, isWord.1.2, isWord.2⟩

theorem isWordChar_of_isWord {name : String} (isWord : isWord name = true) :
    ∀ c ∈ name.toList, isWordChar c = true := by
  obtain ⟨c, rest, rfl, begins, -, inside⟩ := exists_of_isWord isWord
  rw [String.toList_ofList, List.forall_mem_cons]
  exact ⟨by simp [isWordChar, begins], inside⟩

end Scan

/-- The name of a unit that a statement defines is a word. -/
def Token.IsSpelled : Token → Prop
  | .unit none name => Scan.isWord name = true
  | _ => True

/-- The number of parameters of a function. -/
def Session.arity (s : Session) (i : Nat) : Nat :=
  s.functions[i]?.elim 0 fun f => f.parameters.length

/-! ## Changes of a session -/

/-- Sessions may change by `E`, also several times. -/
structure Growth (E : Session → Session → Prop) : Prop where
  refl : ∀ s, E s s
  trans : ∀ {s s' s''}, E s s' → E s' s'' → E s s''

namespace SessionM

variable {α β : Type}

/-- From a session a computation goes on to one that `E` leads to, and its value has a property in
the session that it ends in. -/
def Adds (E : Session → Session → Prop) (s : Session) (P : Session → α → Prop) (x : SessionM α) :
    Prop :=
  E s (outcome x s).2 ∧ ∀ a, (outcome x s).1 = .ok a → P (outcome x s).2 a

theorem Adds.mono {E : Session → Session → Prop} {s : Session} {P Q : Session → α → Prop}
    {x : SessionM α} (adds : Adds E s P x) (more : ∀ s a, P s a → Q s a) : Adds E s Q x :=
  ⟨adds.1, fun a ended => more _ a (adds.2 a ended)⟩

end SessionM

namespace Growth

variable {α β : Type} {E : Session → Session → Prop} {s : Session} {P : Session → α → Prop}
  {Q : Session → β → Prop} {x : SessionM α} {f : α → SessionM β} (growth : Growth E)

include growth

theorem of_outcome {r : Except CalcError α} (ended : outcome x s = (r, s))
    (holds : ∀ a, r = .ok a → P s a) : Adds E s P x := by
  unfold Adds
  rw [ended]
  exact ⟨growth.refl s, holds⟩

theorem pure {a : α} (holds : P s a) : Adds E s P (Pure.pure a) :=
  growth.of_outcome (outcome_pure a s) fun _ same => Except.ok.inj same ▸ holds

theorem throw (e : CalcError) : Adds E s P (MonadExcept.throw e) :=
  growth.of_outcome (outcome_throw e s) nofun

theorem result {r : Except CalcError α} (holds : ∀ a, r = .ok a → P s a) :
    Adds E s P (ofExcept r) :=
  growth.of_outcome (outcome_ofExcept r s) holds

theorem read {g : Session → Except CalcError α} (holds : ∀ a, g s = .ok a → P s a) :
    Adds E s P (SessionM.read g) :=
  growth.of_outcome (outcome_read g s) holds

theorem bind (first : Adds E s P x)
    (second : ∀ s' a, E s s' → P s' a → Adds E s' Q (f a)) : Adds E s Q (x >>= f) := by
  unfold Adds at first ⊢
  rw [outcome_bind]
  cases ended : outcome x s with
  | mk r s' =>
    rw [ended] at first
    cases r with
    | error e => exact ⟨first.1, nofun⟩
    | ok a =>
      obtain ⟨grows, holds⟩ := second s' a first.1 (first.2 a rfl)
      exact ⟨growth.trans first.1 grows, holds⟩

end Growth

/-! ## Tokens that are read -/

/-- A property of lists of tokens that is kept when a token is added that belongs to nothing, and
when a bracket is put before such a token. -/
structure Scan.Admits (C : List Token → Prop) : Prop where
  free : ∀ {t ts}, t.isFree = true → t.IsSpelled → C ts → C (t :: ts)
  divisor : ∀ {t ts}, t.isFree = true → C (t :: ts) → C (t :: .openBracket :: ts)

/-- While a statement is read, sessions of `J` change by `E`. The tokens that were read, the last
one first, stay in `C` when one more is read. -/
structure Scanning (E : Session → Session → Prop) (J : Session → Prop)
    (C : Session → List Token → Prop) : Prop extends Growth E where
  keeps : ∀ {s s'}, E s s' → J s → J s'
  mono : ∀ {s s' ts}, E s s' → C s ts → C s' ts
  admits : ∀ s, Scan.Admits (C s)
  call : ∀ {s name i ts}, J s → s.functionNames.lookup name = some i → C s ts →
    C s (.call (some i) name (s.arity i) :: ts)
  forward : ∀ {s name ts}, J s → s.functionNames.lookup name = none →
    Token.headerName? (ts.reverse ++ [.call none name 0]) = some name → C s ts →
    C s (.call none name 0 :: ts)
  cell : ∀ {s} name, J s → E s (s.cellOf name).2 ∧ ∀ ts, C (s.cellOf name).2 ts →
    C (s.cellOf name).2 (.variable (some (s.cellOf name).1) name :: ts)

/-- While a statement is read, sessions of `J` change by `E`. What names are read into is in `K`,
and so are tokens that belong to nothing. -/
structure Reading (E : Session → Session → Prop) (J : Session → Prop)
    (K : Session → Token → Prop) : Prop extends Growth E where
  keeps : ∀ {s s'}, E s s' → J s → J s'
  mono : ∀ {s s' t}, E s s' → K s t → K s' t
  free : ∀ {s t}, t.isFree = true → t.IsSpelled → K s t
  call : ∀ {s name i}, J s → s.functionNames.lookup name = some i →
    K s (.call (some i) name (s.arity i))
  forward : ∀ {s name}, J s → s.functionNames.lookup name = none → K s (.call none name 0)
  cell : ∀ {s} name, J s → E s (s.cellOf name).2 ∧
    K (s.cellOf name).2 (.variable (some (s.cellOf name).1) name)

/-- Calls of what is not defined yet have the name that the tokens begin with. The last token comes
first. -/
def Token.HeadsForward (ts : List Token) : Prop :=
  ∀ name count, .call none name count ∈ ts → headerName? ts.reverse = some name

namespace Token

variable {t : Token} {ts : List Token}

/-- The begin of tokens stays, whatever else is read. -/
theorem headerName?_of_mem (within : t ∈ ts) (us : List Token) :
    headerName? (ts.reverse ++ us) = headerName? ts.reverse := by
  cases begins : ts.reverse with
  | nil =>
    rw [List.reverse_eq_nil_iff.1 begins] at within
    cases within
  | cons u rest => cases u <;> rfl

theorem HeadsForward.cons (heads : HeadsForward ts) (defined : t.isForward = false) :
    HeadsForward (t :: ts) := by
  intro name count within
  rcases List.mem_cons.1 within with rfl | within
  · cases defined
  · rw [List.reverse_cons, headerName?_of_mem within]
    exact heads name count within

theorem HeadsForward.forward {name : String} (heads : HeadsForward ts)
    (begins : headerName? (ts.reverse ++ [.call none name 0]) = some name) :
    HeadsForward (.call none name 0 :: ts) := by
  intro name' count within
  rw [List.reverse_cons]
  rcases List.mem_cons.1 within with same | within
  · cases same
    exact begins
  · rw [headerName?_of_mem within]
    exact heads name' count within

theorem HeadsForward.tail (heads : HeadsForward (t :: ts)) : HeadsForward ts := by
  intro name count within
  have begins := heads name count (List.mem_cons_of_mem t within)
  rwa [List.reverse_cons, headerName?_of_mem within] at begins

theorem admits_headsForward : Scan.Admits HeadsForward where
  free free _ heads := heads.cons (isForward_of_isFree free)
  divisor free heads := (heads.tail.cons rfl).cons (isForward_of_isFree free)

end Token

namespace Reading

variable {E : Session → Session → Prop} {J : Session → Prop} {K : Session → Token → Prop}
  (reading : Reading E J K)

include reading

/-- What holds of every token holds of all tokens that are read. -/
theorem scanning : Scanning E J fun s ts => ∀ t ∈ ts, K s t where
  toGrowth := reading.toGrowth
  keeps := reading.keeps
  mono grows all t within := reading.mono grows (all t within)
  admits s := by
    refine ⟨fun free spelled all => List.forall_mem_cons.2 ⟨reading.free free spelled, all⟩,
      fun free all => ?_⟩
    rw [List.forall_mem_cons] at all
    exact List.forall_mem_cons.2 ⟨all.1, List.forall_mem_cons.2 ⟨reading.free rfl trivial, all.2⟩⟩
  call holds found all := List.forall_mem_cons.2 ⟨reading.call holds found, all⟩
  forward holds none _ all := List.forall_mem_cons.2 ⟨reading.forward holds none, all⟩
  cell name holds := by
    obtain ⟨grows, known⟩ := reading.cell name holds
    exact ⟨grows, fun ts all => List.forall_mem_cons.2 ⟨known, all⟩⟩

/-- Moreover, functions that are not defined are called by the name of the header only. -/
theorem headed : Scanning E J fun s ts => (∀ t ∈ ts, K s t) ∧ Token.HeadsForward ts where
  toGrowth := reading.toGrowth
  keeps := reading.keeps
  mono grows holds := ⟨reading.scanning.mono grows holds.1, holds.2⟩
  admits s := by
    have all := reading.scanning.admits s
    have heads := Token.admits_headsForward
    exact ⟨fun free spelled holds =>
        ⟨all.free free spelled holds.1, heads.free free spelled holds.2⟩,
      fun free holds => ⟨all.divisor free holds.1, heads.divisor free holds.2⟩⟩
  call holds found all := ⟨reading.scanning.call holds found all.1, all.2.cons rfl⟩
  forward holds none begins all :=
    ⟨reading.scanning.forward holds none begins all.1, all.2.forward begins⟩
  cell name holds := by
    obtain ⟨grows, known⟩ := reading.scanning.cell name holds
    exact ⟨grows, fun ts all => ⟨known ts all.1, all.2.cons rfl⟩⟩

end Reading

/-- The name of a token denotes its cell, and its call is a function of the session. -/
def Session.Knows (s : Session) : Token → Prop
  | .variable cell name => ∃ id, cell = some id ∧ s.cellNames.lookup name = some id
  | .call index _ _ => ∀ i ∈ index, i < s.functions.size
  | _ => True

theorem Session.Extends.knows {s s' : Session} {t : Token} (ext : s.Extends s')
    (knows : s.Knows t) : s'.Knows t := by
  cases t with
  | «variable» cell name =>
    obtain ⟨id, same, named⟩ := knows
    exact ⟨id, same, ext.keepsName name id named⟩
  | call index name count =>
    intro i same
    rw [ext.functions]
    exact knows i same
  | _ => trivial

/-- The names of functions denote functions of the session. -/
def Session.NamesFunctions (s : Session) : Prop :=
  ∀ name (i : Nat), s.functionNames.lookup name = some i → i < s.functions.size

theorem Session.Extends.namesFunctions {s s' : Session} (ext : s.Extends s')
    (names : s.NamesFunctions) : s'.NamesFunctions := by
  unfold NamesFunctions
  rw [ext.functions, ext.functionNames]
  exact names

/-- Without blocks and inputs, reading only makes cells for names. -/
theorem Session.reading_extends :
    Reading Session.Extends Session.NamesFunctions Session.Knows where
  refl := .refl
  trans := .trans
  keeps ext := ext.namesFunctions
  mono ext := ext.knows
  free {s t} free _ := by
    cases t with
    | «variable» | call => cases free
    | _ => trivial
  call names found i same := by
    cases same
    exact names _ _ found
  forward _ _ := nofun
  cell {s} name _ := by
    obtain ⟨ext, named⟩ := s.extends_cellOf name
    exact ⟨ext, _, rfl, named⟩

namespace Scan

variable {K : Token → Prop} {C : List Token → Prop} {s s' : Session} {scan scan' : Scan} {t : Token}
  {allowed : Bool} {c : Char} {rest after : List Char}

/-- All tokens that were read are in `K`. -/
def Consists (K : Token → Prop) (scan : Scan) : Prop :=
  ∀ t ∈ scan.reversed, K t

namespace Admits

variable (admits : Admits C)

include admits

theorem closeDivisor (holds : C scan.reversed) : C scan.closeDivisor.reversed := by
  unfold Scan.closeDivisor
  split
  · exact admits.free (t := .closeBracket) rfl trivial holds
  · exact holds

theorem assign (holds : C scan.reversed) (made : scan.assign allowed = .ok scan') :
    C scan'.reversed := by
  unfold Scan.assign at made
  split at made
  · cases made
  · cases made
    exact admits.free (t := .ofSymbol '=') rfl trivial holds

theorem operator {symbol : Char} (holds : C scan.reversed)
    (made : scan.operator allowed symbol = .ok scan') : C scan'.reversed := by
  unfold Scan.operator at made
  split at made
  · cases made
    exact admits.free rfl trivial holds
  · -- a power keeps the bracket around a divisor open
    have closed : C (if symbol == '^' then scan else scan.closeDivisor).reversed := by
      split
      · exact holds
      · exact admits.closeDivisor holds
    generalize (if symbol == '^' then scan else scan.closeDivisor) = open_ at closed made
    simp only at made
    split at made
    · have divided : C { open_ with isDividing := isDivision symbol }.reversed := closed
      exact admits.assign divided made
    · cases made
      exact admits.free (t := .ofSymbol symbol) rfl trivial closed

theorem factorial (holds : C scan.reversed) (made : scan.factorial = .ok scan') :
    C scan'.reversed := by
  unfold Scan.factorial at made
  split at made
  case h_4 => cases made
  all_goals
    cases made
    exact admits.free rfl trivial holds

theorem number {complex : Bool} {tail : Shorter (rest.length + 1)} (holds : C scan.reversed)
    (made : scan.number complex c rest = .ok (scan', tail)) : C scan'.reversed ∧ tail.1 ⊆ rest := by
  unfold Scan.number at made
  simp only at made
  cases read : readNumber (c :: rest.takeWhile isNumberChar) with
  | error e =>
    rw [read] at made
    cases made
  | ok x =>
    rw [read] at made
    have behind : rest.dropWhile isNumberChar ⊆ rest := (List.dropWhile_sublist _).subset
    change (if _ then _ else _) = _ at made
    split at made
    · cases made
      exact ⟨admits.free rfl trivial holds,
        List.Subset.trans (List.tail_sublist _).subset behind⟩
    · cases made
      exact ⟨admits.free rfl trivial holds, behind⟩

/-- The bracket around a divisor stands before its number. -/
theorem unitSuffix {u : Token} (suffix : scan.takesUnit = true) (holds : C scan.reversed)
    (plain : u.isFree = true) (spelled : u.IsSpelled) : C (scan.unitSuffix u).reversed := by
  unfold Scan.unitSuffix
  simp only
  refine admits.free plain spelled (admits.free (t := .operator '*' unitSuffixOrder) rfl trivial ?_)
  split
  · next number before _ same =>
    have isNumber : number.isFree = true := by
      rw [Scan.takesUnit, Scan.last?, same, List.head?_cons] at suffix
      cases number <;> first | rfl | cases suffix
    rw [same] at holds
    exact admits.divisor isNumber holds
  · exact holds

theorem signedUnit (holds : C scan.reversed) {name : String} (isWord : isWord name = true)
    (made : scan.signedUnit s name after = .ok scan') : C scan'.reversed := by
  unfold Scan.signedUnit at made
  split at made
  · cases made
    exact admits.free (t := .unit none name) rfl isWord holds
  · unfold unitToken at made
    split at made
    · cases made
      exact admits.free rfl trivial holds
    · cases made

end Admits

/-- The function of a name is a built-in one, or one of the session, or there is none. -/
theorem functionToken?_cases (s : Session) (name : String) :
    (∃ t, functionToken? s name = some t ∧ t.isFree = true ∧ t.IsSpelled) ∨
    (∃ i, s.functionNames.lookup name = some i ∧
      functionToken? s name = some (.call (some i) name (s.arity i))) ∨
    s.functionNames.lookup name = none ∧ functionToken? s name = none := by
  unfold functionToken?
  split
  · exact .inl ⟨_, rfl, rfl, trivial⟩
  split
  · exact .inl ⟨_, rfl, rfl, trivial⟩
  split
  · exact .inl ⟨_, rfl, rfl, trivial⟩
  split
  · exact .inl ⟨_, rfl, rfl, trivial⟩
  right
  cases found : s.functionNames.lookup name with
  | none => exact .inr ⟨rfl, rfl⟩
  | some i => exact .inl ⟨i, rfl, rfl⟩

/-- What may be defined is what the statement begins with. -/
theorem headerName?_of_mayDefine {name : String} (defines : scan.mayDefine name = true) :
    Token.headerName? (scan.reversed.reverse ++ [.call none name 0]) = some name := by
  unfold mayDefine tokens at defines
  cases front : scan.reversed.reverse with
  | nil => rfl
  | cons t rest =>
    rw [front] at defines
    cases t with
    | call index first count => exact congrArg some (beq_iff_eq.1 defines)
    | _ => cases defines

/-- What a name is, told by the character behind it. -/
theorem name_eq (a : Scan) (c : Char) (text : String) (rest : List Char) :
    a.name c text rest =
      if rest.head? = some '$' then throw (.macroName text)
      else if rest.head? = some '(' then SessionM.read fun session => a.function session text
      else if a.takesUnit then do
        return a.unitSuffix (← SessionM.read fun session => unitToken session text)
      else if Text.isAlphabetic c then a.variableName text
      else SessionM.read fun session => a.signedUnit session text rest := by
  unfold name
  split
  · next same => rw [if_pos same]
  · next same => rw [if_neg (by rw [same]; decide), if_pos same]
  · next dollar bracket => rw [if_neg dollar, if_neg bracket]

/-- Only its sign begins a block, and only its sign an input. -/
theorem eq_of_class (c : Char) :
    (CharClass.of c = .block → c = '$') ∧ (CharClass.of c = .input → c = '?') := by
  unfold CharClass.of
  split_ifs with digit mark opens closes ends block input stop <;>
    refine ⟨fun class_ => ?_, fun class_ => ?_⟩ <;> cases class_
  · exact beq_iff_eq.1 block
  · exact beq_iff_eq.1 input

/-- Letters can stand in the names of units. -/
theorem isUnitChar_of_class (class_ : CharClass.of c = .letter) : isUnitChar c = true := by
  unfold CharClass.of at class_
  split_ifs at class_
  assumption

theorem operatorAt_subset (c : Char) (rest : List Char) : (operatorAt c rest).2.1 ⊆ rest := by
  unfold operatorAt
  split
  · exact (List.tail_sublist _).subset
  · exact List.Subset.refl _

/-- What stands behind a brace that is closed. -/
theorem subset_of_braced {depth : Nat} {cs inside : List Char}
    (found : Text.braced depth cs = some (inside, after)) : after ⊆ cs := by
  induction cs generalizing depth inside after with
  | nil => simp [Text.braced] at found
  | cons c rest ih =>
    have inner : ∀ {depth : Nat}, (Text.braced depth rest).map (fun p => (c :: p.1, p.2)) =
        some (inside, after) → after ⊆ c :: rest := by
      intro depth found
      obtain ⟨⟨front, back⟩, closed, same⟩ := Option.map_eq_some_iff.1 found
      cases same
      exact List.subset_cons_of_subset c (ih closed)
    unfold Text.braced at found
    split at found
    · exact inner found
    · cases found
      exact List.subset_cons_self _ _
    · exact inner found
    · exact inner found

theorem subset_of_cutAt {mark : Char} {cs back : List Char}
    (found : (Text.cutAt mark cs).2 = some back) : back ⊆ cs := by
  induction cs with
  | nil => cases found
  | cons c rest ih =>
    unfold Text.cutAt at found
    split at found
    · cases found
      exact List.subset_cons_self c _
    · exact List.subset_cons_of_subset c (ih found)

section Scanning

variable {E : Session → Session → Prop} {J : Session → Prop} {C : Session → List Token → Prop}
  {s : Session} {limit : Nat} {create : Method → Shorter limit → SessionM Nat}
  (scanning : Scanning E J C)

/-- What is left behind a lexeme, and what was read. -/
def Leaves (C : Session → List Token → Prop) (rest : List Char) {n : Nat} (s : Session)
    (r : Scan × Shorter n) : Prop :=
  C s r.1.reversed ∧ r.2.1 ⊆ rest

include scanning

theorem function_adds (consists : C s scan.reversed) (holds : J s) {name : String}
    (made : scan.function s name = .ok scan') : C s scan'.reversed := by
  unfold Scan.function at made
  rcases functionToken?_cases s name with
    ⟨t, found, plain, spelled⟩ | ⟨i, named, found⟩ | ⟨none, found⟩
  · rw [found] at made
    cases made
    exact (scanning.admits s).free plain spelled consists
  · rw [found] at made
    cases made
    exact scanning.call holds named consists
  · rw [found] at made
    dsimp only at made
    split at made
    · next defines =>
      cases made
      exact scanning.forward holds none (headerName?_of_mayDefine defines) consists
    · cases made

/-- A name denotes its cell from then on. -/
theorem variableName_adds (consists : C s scan.reversed) (holds : J s) (name : String) :
    Adds E s (fun s scan => C s scan.reversed) (scan.variableName name) := by
  obtain ⟨grows, named⟩ := scanning.cell name holds
  unfold Adds Scan.variableName
  rw [outcome_bind_ok (outcome_get s)]
  refine ⟨grows, fun scan' same => ?_⟩
  cases same
  exact named _ (scanning.mono grows consists)

theorem name_adds (consists : C s scan.reversed) (holds : J s) (first : Char) {name : String}
    (isWord : isWord name = true) :
    Adds E s (fun s scan => C s scan.reversed) (scan.name first name after) := by
  unfold Scan.name
  split
  · exact scanning.throw _
  · exact scanning.read fun scan' made => function_adds scanning consists holds made
  · split
    · next suffix =>
      refine scanning.bind (P := fun s t => C s scan.reversed ∧ t.isFree = true ∧ t.IsSpelled) ?_
        fun s' t _ ⟨consists', plain, spelled⟩ => ?_
      · refine scanning.read fun u made => ⟨consists, ?_⟩
        unfold unitToken at made
        split at made
        · cases made
          exact ⟨rfl, trivial⟩
        · cases made
      · exact scanning.pure ((scanning.admits s').unitSuffix suffix consists' plain spelled)
    · split
      · exact variableName_adds scanning consists holds name
      · exact scanning.read fun scan' made => (scanning.admits s).signedUnit consists isWord made

theorem word_adds (consists : C s scan.reversed) (holds : J s) (begins : CharClass.of c = .letter) :
    Adds E s (Leaves C rest) (scan.word c rest) := by
  unfold Scan.word
  split
  · exact scanning.throw _
  · next other =>
    have isWord : isWord (String.ofList (c :: rest.takeWhile isWordChar)) = true := by
      simp only [Scan.isWord, String.toList_ofList, begins, decide_true, Bool.true_and,
        Bool.and_eq_true, bne_iff_ne, List.all_takeWhile, and_true]
      exact fun same => other (beq_iff_eq.2 same)
    refine scanning.bind (name_adds scanning consists holds c isWord) fun s' scan' _ consists' => ?_
    exact scanning.pure ⟨consists', (List.dropWhile_sublist _).subset⟩

theorem exclamation_leaves (consists : C s scan.reversed) {r : Scan × Shorter (rest.length + 1)}
    (made : scan.exclamation allowed rest = .ok r) : Leaves C rest s r := by
  unfold Scan.exclamation at made
  split at made
  · cases read : scan.operator allowed '≠' with
    | error e => rw [read] at made; cases made
    | ok scan' =>
      rw [read] at made
      cases made
      exact ⟨(scanning.admits s).operator consists read, (List.tail_sublist _).subset⟩
  · cases read : scan.factorial with
    | error e => rw [read] at made; cases made
    | ok scan' =>
      rw [read] at made
      cases made
      exact ⟨(scanning.admits s).factorial consists read, List.Subset.refl _⟩

/-- A block that is created. -/
theorem block_adds (consists : C s scan.reversed)
    (created : ∀ method script,
      Adds E s (fun s' i => ∀ name ts, C s ts → C s' (.block i name :: ts)) (create method script))
    (within : rest.length < limit) :
    Adds E s (Leaves C rest) (scan.block limit create rest within) := by
  unfold Scan.block
  split
  · exact scanning.throw _
  · next body opened =>
    dsimp only
    split
    · exact scanning.throw _
    · next method _ =>
      split
      · exact scanning.throw _
      · next script after closed =>
        refine scanning.bind (created method _) fun s' index _ holds => ?_
        refine scanning.pure ⟨holds method.name _ consists, ?_⟩
        exact List.Subset.trans (subset_of_braced closed) (subset_of_cutAt opened)

/-- An input, which may take a line from the session. -/
theorem input_adds (consists : C s scan.reversed)
    (entered : ∀ lines, E s { s with input := lines }) :
    Adds E s (Leaves C rest) (scan.input rest) := by
  unfold Scan.input
  split
  · next body =>
    split
    · exact scanning.throw _
    · next inside after closed =>
      refine scanning.bind (P := fun s _ => C s scan.reversed) (scanning.result fun _ _ => consists)
        fun s' x _ consists' => ?_
      refine scanning.pure ⟨(scanning.admits s').free rfl trivial consists', ?_⟩
      exact List.subset_cons_of_subset _ (subset_of_braced closed)
  · have waits : Adds E s (Leaves C rest)
        (Pure.pure (scan.push (.input none), Shorter.all rest) : SessionM _) :=
      scanning.pure ⟨(scanning.admits s).free rfl trivial consists, List.Subset.refl _⟩
    unfold Adds
    rw [outcome_bind_ok (outcome_get s)]
    split
    · next line lines _ _ =>
      -- the line is taken, whether it can be read or not
      have taken : Adds E s (fun s _ => C s scan.reversed)
          (set { s with input := lines } : SessionM PUnit) :=
        ⟨entered lines, fun _ _ => scanning.mono (entered lines) consists⟩
      refine scanning.bind taken fun s' _ _ consists' => ?_
      refine scanning.bind (P := fun s _ => C s scan.reversed)
        (scanning.result fun _ _ => consists') fun s'' x _ consists'' => ?_
      exact scanning.pure ⟨(scanning.admits s'').free rfl trivial consists'', List.Subset.refl _⟩
    · exact waits

variable {c : Char}

theorem lexeme_adds (consists : C s scan.reversed) (holds : J s)
    (created : c = '$' → ∀ method script,
      Adds E s (fun s' i => ∀ name ts, C s ts → C s' (.block i name :: ts)) (create method script))
    (entered : c = '?' → ∀ lines, E s { s with input := lines }) (within : rest.length < limit) :
    Adds E s (Leaves C rest) (scan.lexeme limit create allowed c rest within) := by
  unfold Scan.lexeme
  split
  · exact scanning.pure ⟨consists, List.Subset.refl _⟩
  cases class_ : CharClass.of c with
  | digit => exact scanning.read fun r made => (scanning.admits s).number consists made
  | letter => exact word_adds scanning consists holds class_
  | operator =>
    refine scanning.bind (scanning.result (P := fun s scan => C s scan.reversed) fun scan' made => ?_) ?_
    · exact (scanning.admits s).operator consists made
    · exact fun s' scan' _ consists' => scanning.pure ⟨consists', operatorAt_subset c rest⟩
  | exclamation => exact scanning.result fun r made => exclamation_leaves scanning consists made
  | openBracket =>
    exact scanning.pure
      ⟨(scanning.admits s).free (t := .openBracket) rfl trivial consists, List.Subset.refl _⟩
  | closeBracket =>
    exact scanning.pure
      ⟨(scanning.admits s).free (t := .closeBracket) rfl trivial
        ((scanning.admits s).closeDivisor consists), List.Subset.refl _⟩
  | separator =>
    exact scanning.pure
      ⟨(scanning.admits s).free (t := .separator) rfl trivial
        ((scanning.admits s).closeDivisor consists), List.Subset.refl _⟩
  | block => exact block_adds scanning consists (created ((eq_of_class c).1 class_)) within
  | input => exact input_adds scanning consists (entered ((eq_of_class c).2 class_))
  | stop | unknown => exact scanning.throw _

/-- A scan leads to a session that `K` holds of all its tokens in. -/
theorem run_adds {cs : List Char} (consists : C s scan.reversed) (holds : J s)
    (created : '$' ∈ cs → ∀ s, J s → ∀ method script,
      Adds E s (fun s' i => ∀ name ts, C s ts → C s' (.block i name :: ts)) (create method script))
    (entered : '?' ∈ cs → ∀ s, J s → ∀ lines, E s { s with input := lines })
    (within : cs.length ≤ limit) :
    Adds E s (fun s scan => C s scan.reversed) (run limit create allowed cs within scan) := by
  -- Strong induction on what is left to read: each lexeme leaves less of it, and only signs that
  -- were there before.
  induction n : cs.length using Nat.strongRecOn generalizing cs scan s with
  | ind n ih =>
      cases cs with
    | nil =>
      rw [run]
      exact scanning.pure ((scanning.admits s).closeDivisor consists)
    | cons c rest =>
      rw [run]
      split
      · exact scanning.pure ((scanning.admits s).closeDivisor consists)
      · have first : Adds E s (Leaves C rest) (scan.lexeme limit create allowed c rest within) :=
          lexeme_adds scanning consists holds
            (fun same => created (same ▸ List.mem_cons_self) s holds)
            (fun same => entered (same ▸ List.mem_cons_self) s holds) within
        refine scanning.bind first fun s' r grows leaves => ?_
        refine ih r.2.1.length (n ▸ r.2.2) leaves.1 (scanning.keeps grows holds) ?_ ?_ _ rfl
        · exact fun inside => created (List.mem_cons_of_mem c (leaves.2 inside))
        · exact fun inside => entered (List.mem_cons_of_mem c (leaves.2 inside))

omit scanning in
theorem lexeme_congr (create' : Method → Shorter limit → SessionM Nat) (block : c ≠ '$')
    (within : rest.length < limit) :
    scan.lexeme limit create allowed c rest within =
      scan.lexeme limit create' allowed c rest within := by
  unfold Scan.lexeme
  cases class_ : CharClass.of c with
  | block => exact absurd ((eq_of_class c).1 class_) block
  | _ => rfl

/-- How blocks are created does not matter when there are none. -/
theorem run_congr {cs : List Char} (create' : Method → Shorter limit → SessionM Nat)
    (plain : ∀ c ∈ cs, c ≠ '$' ∧ c ≠ '?') (within : cs.length ≤ limit)
    (consists : C s scan.reversed) (holds : J s) :
    outcome (run limit create allowed cs within scan) s =
      outcome (run limit create' allowed cs within scan) s := by
  -- The induction is the same as for `run_adds`, which keeps the condition on blocks alive.
  induction n : cs.length using Nat.strongRecOn generalizing cs scan s with
  | ind n ih =>
    cases cs with
    | nil =>
      rw [run, run]
    | cons c rest =>
      rw [List.forall_mem_cons] at plain
      rw [run, run]
      split
      · rfl
      · have adds : Adds E s (Leaves C rest) (scan.lexeme limit create allowed c rest within) :=
          lexeme_adds scanning consists holds (fun same => absurd same plain.1.1)
            (fun same => absurd same plain.1.2) within
        rw [outcome_bind, outcome_bind, ← lexeme_congr create' plain.1.1]
        cases ended : outcome (scan.lexeme limit create allowed c rest within) s with
        | mk r s' =>
          unfold Adds at adds
          rw [ended] at adds
          cases r with
          | error e => rfl
          | ok r =>
            obtain ⟨consists', after⟩ := adds.2 r rfl
            exact ih r.2.1.length (n ▸ r.2.2) (fun c inside => plain.2 c (after inside)) _ consists'
              (scanning.keeps adds.1 holds) rfl

end Scanning

end Scan

end UnitCalc
