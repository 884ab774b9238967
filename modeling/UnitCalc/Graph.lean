/-
# Reachable nodes

The nodes of a finite graph that can be reached from some starting nodes. Every node that
is found leaves the domain, so the search ends on graphs with cycles too.
-/

namespace UnitCalc.Graph

variable {α : Type} [DecidableEq α]

/-- The nodes of `domain` that are pending, or that can be reached from one of them along
edges that stay in the domain. -/
def reach (next : α → List α) (domain pending : List α) : List α :=
  match _found : pending.filter (· ∈ domain) with
  | [] => []
  | a :: rest => a :: reach next (domain.erase a) (next a ++ rest)
termination_by domain.length
decreasing_by
  have within : a ∈ pending.filter (· ∈ domain) := by simp [_found]
  have known : a ∈ domain := by simpa using (List.mem_filter.1 within).2
  have positive := List.length_pos_of_mem known
  rw [List.length_erase_of_mem known]
  omega

/-- A path of at least one edge leads from a node back to itself. -/
def onCycle (next : α → List α) (domain : List α) (a : α) : Bool :=
  a ∈ reach next domain (next a)

end UnitCalc.Graph
