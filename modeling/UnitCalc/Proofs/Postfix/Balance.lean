/-
# Balanced programs

In an accepted expression a call with too many arguments may make up for another one that lacks
some. However the arguments are distributed, the program of the expression leaves no more than one
value: either it leaves one, or it takes a value from an empty stack.

## Main definitions

* `Postfix.gain`: by how many values a program raises the stack.
* `Postfix.LeavesOne` programs leave one value, if they never lack an operand.

## Main results

* `Layout.gain_le`: how many values the tokens of an expression gain.
* `Token.leavesOne_of_check`: accepted expressions leave one value, or lack an operand.
-/

import UnitCalc.Proofs.Postfix.Accepted
import UnitCalc.Proofs.Postfix.Conservation

namespace UnitCalc

open List (Forall₂)

/-- Binding does not decide whether a token is kept in the program, nor how many operands it
takes. -/
theorem Token.Alike.isKept_arity {t u : Token} (alike : Alike u t) :
    u.isKept = t.isKept ∧ u.arity = t.arity := by
  have operand {v : Token} (value : v.kind = .value) : v.isKept = true ∧ v.arity = 0 := by
    cases v <;> first | exact ⟨rfl, rfl⟩ | cases value
  cases t with
  | operator | negation =>
    obtain ⟨order, rfl⟩ := alike
    exact ⟨rfl, rfl⟩
  | _ =>
    rcases alike with ⟨value, value'⟩ | rfl
    · rw [(operand value).1, (operand value').1, (operand value).2, (operand value').2]
      exact ⟨rfl, rfl⟩
    · exact ⟨rfl, rfl⟩

namespace Postfix

open Token

variable {ts us program : List Token}

/-- The values that a list of tokens leaves, less those that it takes. -/
def gain : List Token → Int
  | [] => 0
  | t :: ts => 1 - (t.arity : Int) + gain ts

/-- The program leaves one value, if it finds all its operands on the stack. -/
def LeavesOne (height : Nat) (program : List Token) : Prop :=
  ∀ final ∈ heightFrom height program, final = 1

theorem gain_append (ts us : List Token) : gain (ts ++ us) = gain ts + gain us := by
  induction ts with
  | nil => exact (Int.zero_add _).symm
  | cons t ts ih => rw [List.cons_append, gain, gain, ih, Int.add_assoc]

/-- The order of tokens does not matter. -/
theorem gain_perm (same : ts.Perm us) : gain ts = gain us := by
  induction same with
  | nil => rfl
  | cons t _ ih => rw [gain, gain, ih]
  | swap t u ts =>
    simp only [gain]
    omega
  | trans _ _ first second => exact first.trans second

theorem heightFrom_eq {height final : Nat} (reached : heightFrom height program = some final) :
    (final : Int) = height + gain program := by
  induction program generalizing height with
  | nil =>
    cases reached
    simp [gain]
  | cons t program ih =>
    rw [heightFrom] at reached
    split at reached
    · have rest := ih reached
      rw [gain]
      omega
    · cases reached

/-- A step leaves a value. -/
theorem heightFrom_pos {height final : Nat} (nonempty : program ≠ [])
    (reached : heightFrom height program = some final) : 0 < final := by
  induction program generalizing height with
  | nil => exact absurd rfl nonempty
  | cons t program ih =>
    rw [heightFrom] at reached
    split at reached
    · cases program with
      | nil =>
        cases reached
        exact Nat.succ_pos _
      | cons u program => exact ih (List.cons_ne_nil _ _) reached
    · cases reached

theorem gain_settled (ts : List Token) : gain (ts.map Token.settled) = gain ts := by
  induction ts with
  | nil => rfl
  | cons t ts ih =>
    have arity : t.settled.arity = t.arity := by cases t <;> rfl
    rw [List.map_cons, gain, gain, arity, ih]

/-- The program of a list gains what the tokens of the list do that do not only group. -/
theorem gain_ofTokens (ordered : ofTokens ts = .ok program) :
    gain program = gain (ts.filter isKept) := by
  have conserved : program.Perm ((ts.filter isKept).map Token.settled) :=
    (conserved_ofTokensFrom (List.forall_mem_nil _) ordered).1
  rw [gain_perm conserved, gain_settled]

/-- Binding a list changes neither which tokens are kept nor what they gain. -/
theorem gain_alike (alike : Forall₂ Alike us ts) :
    gain (us.filter isKept) = gain (ts.filter isKept) := by
  induction alike with
  | nil => rfl
  | @cons u t _ _ same _ ih =>
    obtain ⟨kept, arity⟩ := same.isKept_arity
    rw [List.filter_cons, List.filter_cons, kept]
    split
    · rw [gain, gain, ih, arity]
    · exact ih

end Postfix

namespace Token

open Postfix

variable {next : Expected} {n : Nat} {e : Int} {ts us tokens checked program : List Token}

theorem le_storedCount (count : Int) : count ≤ Legality.storedCount count := by
  unfold Legality.storedCount
  split <;> omega

/-- The tokens of an expression gain one value, and one more for each separator that is in excess.
A call of any number of arguments takes what is in excess inside of it. -/
theorem Layout.gain_le (layout : Layout next n e ts us)
    (takes : ∀ index name, .call index name 0 ∉ us) :
    gain (us.filter isKept) ≤ n + e + 1 - next.produced := by
  induction layout with
  | done => simp [gain, Expected.produced]
  | @operand t _ _ _ us value _ ih =>
    have rest := ih fun index name within => takes index name (List.mem_cons_of_mem t within)
    have kept : t.isKept = true ∧ t.arity = 0 := by
      cases t <;> first | exact ⟨rfl, rfl⟩ | cases value
    rw [List.filter_cons_of_pos kept.1, gain, kept.2]
    simp only [Expected.produced] at rest ⊢
    omega
  | negation _ ih | factorial _ ih | operator _ ih =>
    have rest := ih fun index name within => takes index name (List.mem_cons_of_mem _ within)
    rw [List.filter_cons_of_pos rfl, gain]
    simp only [Expected.produced, arity] at rest ⊢
    omega
  | separator _ ih =>
    have rest := ih fun index name within => takes index name (List.mem_cons_of_mem _ within)
    rw [List.filter_cons_of_neg (by simp [isKept])]
    simp only [Expected.produced] at rest ⊢
    omega
  | bracket _ _ ihBody ihRest =>
    have inside := ihBody fun index name within => takes index name (by simp [within])
    have behind := ihRest fun index name within => takes index name (by simp [within])
    rw [List.filter_cons_of_neg (by simp [isKept]), List.filter_append,
      List.filter_cons_of_neg (by simp [isKept]), gain_append]
    simp only [Expected.produced] at inside behind ⊢
    omega
  | @call t _ _ k _ _ _ _ _ _ needs _ _ ihBody ihRest =>
    have inside := ihBody fun index name within => takes index name (by simp [within])
    have behind := ihRest fun index name within => takes index name (by simp [within])
    obtain ⟨kept, counts⟩ : t.isKept = true ∧ t.arity = k + 1 := by
      cases t with
      | call index name count =>
        have positive : count ≠ 0 := by
          rintro rfl
          exact takes index name List.mem_cons_self
        cases needs
        exact ⟨rfl, by simp only [arity]; omega⟩
      | _ => cases needs <;> exact ⟨rfl, rfl⟩
    rw [List.filter_cons_of_pos kept, List.filter_cons_of_neg (by simp [isKept]),
      List.filter_append, List.filter_cons_of_neg (by simp [isKept]), gain, gain_append, counts]
    simp only [Expected.produced] at inside behind ⊢
    omega
  | @manyCall name count _ m _ i _ _ _ _ _ _ ihBody ihRest =>
    have inside := ihBody fun index name within => takes index name (by simp [within])
    have behind := ihRest fun index name within => takes index name (by simp [within])
    have stored := le_storedCount (i + m + 1)
    rw [List.filter_cons_of_pos rfl, List.filter_cons_of_neg (by simp [isKept]),
      List.filter_append, List.filter_cons_of_neg (by simp [isKept]), gain, gain_append]
    simp only [Expected.produced, arity] at inside behind ⊢
    omega

/-- An operand consists of tokens that do not only group. -/
theorem Layout.exists_kept (layout : Layout next n e ts us) (operand : next = .operand) :
    ∃ t ∈ us, t.isKept = true := by
  induction layout with
  | done | factorial | operator | separator => cases operand
  | @operand t _ _ _ _ value =>
    refine ⟨t, List.mem_cons_self, ?_⟩
    cases t <;> first | rfl | cases value
  | negation | manyCall => exact ⟨_, List.mem_cons_self, rfl⟩
  | bracket _ _ ihBody =>
    obtain ⟨t, within, kept⟩ := ihBody rfl
    exact ⟨t, by simp [within], kept⟩
  | @call t _ _ _ _ _ _ _ _ _ needs =>
    refine ⟨t, List.mem_cons_self, ?_⟩
    cases t <;> first | rfl | cases needs

/-- The program of an accepted expression never leaves more than one value. -/
theorem leavesOne_of_check (accepted : check tokens = .ok (checked, false))
    (visible : ∀ t ∈ tokens, t.kind ≠ .start) (opens : CallsOpen checked)
    (takes : ∀ index name, .call index name 0 ∉ checked)
    (begins : checked.head?.any (fun t => t.mayFollow (some .openBracket)) = true)
    {isAssigned : CellId → Bool} {find : Option (String → Option ValueUnit)} {place : Nat}
    (ordered : ofTokens (Token.bind isAssigned find place checked) = .ok program) :
    LeavesOne 0 program := by
  have alike := bind_alike isAssigned find place checked
  have outside : separatorsAt 0 checked = 0 := by
    rw [← separatorsAt_alike alike]
    exact separatorsAt_of_ofTokensFrom ordered
  obtain ⟨next, layout⟩ := exists_layout_of_check accepted visible opens outside
  obtain rfl : next = .operand := by
    cases next with
    | operand => rfl
    | continuation => cases layout <;> simp [mayFollow, Class.mayFollow, classAfter, classBefore,
        kind] at begins
  have gains : gain program ≤ 1 := by
    rw [gain_ofTokens ordered, gain_alike alike]
    simpa [Expected.produced] using layout.gain_le takes
  intro final reached
  have height := heightFrom_eq reached
  have positive : 0 < final := by
    obtain ⟨t, within, kept⟩ := layout.exists_kept rfl
    obtain ⟨u, bound, same⟩ : ∃ u ∈ Token.bind isAssigned find place checked, Alike u t :=
      exists_of_forall₂ alike.flip within
    refine heightFrom_pos ?_ reached
    rintro rfl
    have conserved := (conserved_ofTokensFrom (List.forall_mem_nil _) ordered).1
    have nothing := List.map_eq_nil_iff.1 conserved.nil_eq.symm
    exact List.filter_eq_nil_iff.1 nothing u bound (same.isKept_arity.1.trans kept)
  omega

end Token

end UnitCalc
