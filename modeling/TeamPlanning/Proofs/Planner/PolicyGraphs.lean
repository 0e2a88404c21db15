import TeamPlanning.Proofs.Planner.PolicyCounts

/-! # Drawing policies

The graph of a policy is the tree of its agent's observation histories. Histories are numbered
breadth-first, so the edges, which are listed history by history and observation by observation,
lead to the histories 1, 2, 3, … in that order. -/

set_option autoImplicit false

namespace TeamPlanning

open scoped BigOperators

namespace HistorySpace

variable {histories : HistorySpace .observation Unit} {stages : Nat}

theorem word_extend {observation : Nat} (known : observation < histories.base) (index : Nat) :
    histories.word (index * histories.base + observation + 1) =
      histories.word index ++ [.observation observation] := by
  simp only [word, Shortlex.spell_extend known, List.map_append, List.map_cons,
    List.map_nil, Symbol.ofDigit]

namespace Reads

variable (reads : histories.Reads stages)
include reads

end Reads

end HistorySpace

/-- The policy takes one of the agent's actions at each of the agent's observation histories. -/
def DecisionProcess.ActsOnObservations {W : Type} (process : DecisionProcess W) (stages agent : Nat)
    (policy : PurePolicy) : Prop :=
  policy.domain = .observationHistory ∧
    policy.actions.size = ∑ stage ∈ Finset.range stages, process.observations agent ^ stage ∧
    ∀ action ∈ policy.actions, action < process.actions agent

namespace Planner

variable {W : Type} [Weight W] {process : DecisionProcess W} {stages : Nat} {settings : Settings}
  {planner : Planner W} {agent : Nat} {policy : PurePolicy}

section Edges

variable {histories : HistorySpace .observation Unit}
  (seats : planner.Seats .observation agent histories) (reads : histories.Reads stages)
  (base : histories.base = planner.process.observations agent) (planned : 1 ≤ stages)
include seats reads base planned

end Edges

section Serving

variable (serves : Serves process stages settings planner) (coherent : process.Coherent)
  (known : agent < process.agents)
include serves coherent known

theorem Serves.validatePolicy_eq_ok_iff :
    planner.validatePolicy agent policy .observationHistory = .ok () ↔
      process.ActsOnObservations stages agent policy := by
  obtain ⟨rfl, _, _⟩ := serves.ready
  rw [Planner.validatePolicy_eq_ok_iff, serves.counts_histories coherent known, Except.ok.injEq,
    DecisionProcess.ActsOnObservations, eq_comm (a := policy.actions.size)]

end Serving

end Planner

end TeamPlanning
