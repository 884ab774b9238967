/-
# Closure of reachable nodes

The nodes that a search finds contain the pending ones and are closed under edges, as far as
the domain goes. So a node that is not found has no edge from one that is, and a node on a
cycle of the domain is found from its own successors.

## Main results

* `Graph.mem_reach_of_pending`, `Graph.mem_reach_of_edge`: what is found.
* `Graph.reach_subset`, `Graph.nodup_reach`: the search visits nodes of the domain, and no node
  twice.
* `Graph.onCycle_of_transGen`, `Graph.transGen_of_onCycle`: nodes on cycles are recognized.
-/

import Mathlib.Logic.Relation
import UnitCalc.Graph

namespace UnitCalc.Graph

open Relation (TransGen ReflTransGen)

variable {α : Type} [DecidableEq α] {next : α → List α} {domain pending : List α} {a b : α}

theorem reach_nil (none : pending.filter (· ∈ domain) = []) : reach next domain pending = [] := by
  unfold reach
  split
  · rfl
  · next found => rw [none] at found; cases found

theorem reach_cons {rest : List α} (first : pending.filter (· ∈ domain) = a :: rest) :
    reach next domain pending = a :: reach next (domain.erase a) (next a ++ rest) := by
  rw [reach]
  split
  · next found => rw [first] at found; cases found
  · next found => rw [first] at found; cases found; rfl

/-- A search finds the pending nodes of the domain. -/
theorem mem_reach_of_pending (waits : b ∈ pending) (within : b ∈ domain) :
    b ∈ reach next domain pending := by
  have waits' : b ∈ pending.filter (· ∈ domain) := by simp [waits, within]
  -- on the size of the domain, which every node that is found leaves
  induction size : domain.length generalizing domain pending with
  | zero => rw [List.length_eq_zero_iff.1 size] at within; cases within
  | succ n ih =>
    obtain ⟨a, rest, first⟩ := List.exists_cons_of_ne_nil (List.ne_nil_of_mem waits')
    rw [reach_cons first]
    by_cases same : b = a
    · rw [same]
      exact List.mem_cons_self
    · have known : a ∈ domain := by
        have : a ∈ pending.filter (· ∈ domain) := by simp [first]
        simpa using (List.mem_filter.1 this).2
      have left : b ∈ domain.erase a := (List.mem_erase_of_ne same).2 within
      have behind : b ∈ rest := by
        rw [first] at waits'
        exact (List.mem_cons.1 waits').resolve_left same
      have waits : b ∈ next a ++ rest := List.mem_append_right _ behind
      refine List.mem_cons_of_mem a (ih waits left (by simp [left, behind]) ?_)
      rw [List.length_erase_of_mem known, size]
      rfl

/-- A search finds the successors, within the domain, of what it finds. -/
theorem mem_reach_of_edge (found : a ∈ reach next domain pending) (edge : b ∈ next a)
    (within : b ∈ domain) : b ∈ reach next domain pending := by
  induction size : domain.length generalizing domain pending with
  | zero => rw [List.length_eq_zero_iff.1 size] at within; cases within
  | succ n ih =>
    cases first : pending.filter (· ∈ domain) with
    | nil => rw [reach_nil first] at found; cases found
    | cons c rest =>
      rw [reach_cons first] at found ⊢
      by_cases same : b = c
      · rw [same]
        exact List.mem_cons_self
      · have left : b ∈ domain.erase c := (List.mem_erase_of_ne same).2 within
        apply List.mem_cons_of_mem
        rcases List.mem_cons.1 found with rfl | found
        -- the successors of the first node are pending from then on
        · exact mem_reach_of_pending (List.mem_append_left _ edge) left
        · have known : c ∈ domain := by
            have : c ∈ pending.filter (· ∈ domain) := by simp [first]
            simpa using (List.mem_filter.1 this).2
          refine ih found left ?_
          rw [List.length_erase_of_mem known, size]
          rfl

/-- The first node that is pending and in the domain. -/
theorem first_mem {rest : List α} (first : pending.filter (· ∈ domain) = a :: rest) :
    a ∈ domain ∧ a ∈ pending ∧ rest ⊆ pending := by
  have all : a :: rest ⊆ pending := first ▸ List.filter_sublist.subset
  have within : a ∈ pending.filter (· ∈ domain) := by simp [first]
  refine ⟨by simpa using (List.mem_filter.1 within).2, all List.mem_cons_self, ?_⟩
  exact fun b member => all (List.mem_cons_of_mem a member)

/-- A search stays in its domain. -/
theorem reach_subset (next : α → List α) (domain pending : List α) :
    reach next domain pending ⊆ domain := by
  induction size : domain.length generalizing domain pending with
  | zero =>
    rw [List.length_eq_zero_iff.1 size, reach_nil (by simp)]
    exact List.nil_subset _
  | succ n ih =>
    cases first : pending.filter (· ∈ domain) with
    | nil =>
      rw [reach_nil first]
      exact List.nil_subset _
    | cons a rest =>
      have known := (first_mem first).1
      rw [reach_cons first]
      refine List.cons_subset.2 ⟨known, List.Subset.trans (ih _ _ ?_) List.erase_subset⟩
      rw [List.length_erase_of_mem known, size]
      rfl

/-- A search visits no node twice, also on a graph with cycles. -/
theorem nodup_reach (next : α → List α) (distinct : domain.Nodup) (pending : List α) :
    (reach next domain pending).Nodup := by
  induction size : domain.length generalizing domain pending with
  | zero =>
    rw [List.length_eq_zero_iff.1 size, reach_nil (by simp)]
    exact List.nodup_nil
  | succ n ih =>
    cases first : pending.filter (· ∈ domain) with
    | nil =>
      rw [reach_nil first]
      exact List.nodup_nil
    | cons a rest =>
      have known := (first_mem first).1
      rw [reach_cons first]
      refine List.nodup_cons.2 ⟨fun again => ?_, ih (distinct.erase a) _ ?_⟩
      · exact distinct.not_mem_erase (reach_subset _ _ _ again)
      · rw [List.length_erase_of_mem known, size]
        rfl

/-- What a search finds can be reached from a pending node. -/
theorem exists_path_of_mem_reach (found : b ∈ reach next domain pending) :
    ∃ a ∈ pending, ReflTransGen (fun c d => d ∈ next c) a b := by
  induction size : domain.length generalizing domain pending with
  | zero =>
    rw [List.length_eq_zero_iff.1 size, reach_nil (by simp)] at found
    cases found
  | succ n ih =>
    cases first : pending.filter (· ∈ domain) with
    | nil => rw [reach_nil first] at found; cases found
    | cons c rest =>
      obtain ⟨known, waits, others⟩ := first_mem first
      rw [reach_cons first] at found
      rcases List.mem_cons.1 found with rfl | found
      · exact ⟨b, waits, .refl⟩
      · obtain ⟨a, from_, path⟩ := ih found (by rw [List.length_erase_of_mem known, size]; rfl)
        rcases List.mem_append.1 from_ with edge | member
        · exact ⟨c, waits, .head edge path⟩
        · exact ⟨a, others member, path⟩

/-- A node that is recognized is on a cycle. -/
theorem transGen_of_onCycle (found : onCycle next domain a = true) :
    TransGen (fun c d => d ∈ next c) a a := by
  obtain ⟨b, edge, path⟩ := exists_path_of_mem_reach (of_decide_eq_true found)
  exact .head' edge path

/-- A path that is new leads through the node whose edges are new. -/
theorem transGen_cases {r r' : α → α → Prop} {c : α} (old : ∀ a b, a ≠ c → r' a b → r a b)
    (path : TransGen r' a b) :
    TransGen r a b ∨ ReflTransGen r' a c ∧ TransGen r' c b := by
  induction path with
  | @single b edge =>
    by_cases here : a = c
    · exact .inr ⟨here ▸ .refl, here ▸ .single edge⟩
    · exact .inl (.single (old a b here edge))
  | @tail b d path edge ih =>
    by_cases here : b = c
    · exact .inr ⟨here ▸ path.to_reflTransGen, here ▸ .single edge⟩
    · rcases ih with before | ⟨first, second⟩
      · exact .inl (before.tail (old b d here edge))
      · exact .inr ⟨first, second.tail edge⟩

/-- A node on a cycle within the domain is recognized. -/
theorem onCycle_of_transGen
    (cycle : TransGen (fun c d => d ∈ next c ∧ d ∈ domain) a a) :
    onCycle next domain a = true := by
  have found : ∀ b, TransGen (fun c d => d ∈ next c ∧ d ∈ domain) a b →
      b ∈ reach next domain (next a) := by
    intro b path
    induction path with
    | single edge => exact mem_reach_of_pending edge.1 edge.2
    | tail _ edge ih => exact mem_reach_of_edge ih edge.1 edge.2
  exact decide_eq_true (found a cycle)

end UnitCalc.Graph
