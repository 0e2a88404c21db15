import TeamPlanning.Proofs.Counting
import TeamPlanning.Proofs.Planner.Decomposition
import TeamPlanning.Proofs.Planner.JointPolicies

/-! # Counting policies

A policy takes one of its agent's actions at every observation history of the agent, so there are as
many as functions from the histories to the actions. The counts are exact as long as they are in
range, in whichever modes the histories are kept. -/

set_option autoImplicit false

namespace TeamPlanning

open scoped BigOperators

/-- How many functions there are from the agent's observation histories to its actions. -/
def DecisionProcess.policies {W : Type} (process : DecisionProcess W) (stages agent : Nat) : Nat :=
  process.actions agent ^ ∑ stage ∈ Finset.range stages, process.observations agent ^ stage

namespace Planner

variable {W : Type} [Weight W] {process : DecisionProcess W} {stages : Nat} {settings : Settings}
  {planner : Planner W} {agent : Nat}

section Serving

variable (serves : Serves process stages settings planner) (coherent : process.Coherent)
include serves

theorem Serves.stages_eq : planner.stages = .ok stages := by
  obtain ⟨_, _, finite, _⟩ := serves.exists_splits
  rw [Planner.stages, finite]
  rfl

include coherent

/-- The observation histories of an agent of the process. -/
theorem Serves.exists_observations (known : agent < process.agents) :
    ∃ histories : HistorySpace .observation Unit, planner.Seats .observation agent histories ∧
      histories.total = ∑ stage ∈ Finset.range stages, process.observations agent ^ stage ∧
      histories.Reads stages ∧ histories.base = process.observations agent := by
  have seated : agent < process.alphabets.length := by
    rw [coherent, List.length_map, List.length_range]
    exact known
  have own : process.alphabets[agent]? =
      some ⟨process.actions agent, process.observations agent⟩ := by
    rw [coherent, List.getElem?_map, List.getElem?_range known]
    rfl
  obtain ⟨histories, seats, alphabet, reads⟩ := serves.exists_seat seated .observation
  rw [List.getElem?_eq_getElem seated, Option.some.injEq] at own
  have based := reads.based
  rw [alphabet, own] at based
  have base : process.observations agent = histories.base := Except.ok.inj based
  exact ⟨histories, seats, by rw [reads.total, Shortlex.first_eq_sum, base], reads, base.symm⟩

theorem Serves.counts_histories (known : agent < process.agents) :
    planner.domainSize agent .observationHistory none =
      .ok (∑ stage ∈ Finset.range stages, process.observations agent ^ stage) := by
  obtain ⟨histories, ⟨space, spaced, seated⟩, total, _⟩ :=
    serves.exists_observations coherent known
  rw [← total]
  exact (bind_of_eq_ok serves.stages_eq _).trans
    ((bind_of_eq_ok spaced _).trans (bind_of_eq_ok seated _))

theorem Serves.policyCount_eq (known : agent < process.agents) :
    planner.policyCount agent = Bounded.pow (process.actions agent)
      (∑ stage ∈ Finset.range stages, process.observations agent ^ stage) := by
  obtain ⟨rfl, _, _⟩ := serves.ready
  obtain ⟨histories, ⟨space, spaced, seated⟩, total, _⟩ :=
    serves.exists_observations coherent known
  have counted : space.count agent = .ok histories.total := bind_of_eq_ok seated _
  rw [policyCount, bind_of_eq_ok spaced, bind_of_eq_ok counted, total]

theorem Serves.counts_policies (known : agent < process.agents) :
    Bounded.Counts (planner.policyCount agent) (process.policies stages agent) := by
  rw [serves.policyCount_eq coherent known]
  exact Bounded.counts_pow _ _

theorem Serves.jointPolicyCount_eq : planner.jointPolicyCount =
    (List.range process.agents).foldlM (fun count agent => do
      Bounded.mul count (← Bounded.pow (process.actions agent)
        (∑ stage ∈ Finset.range stages, process.observations agent ^ stage))) 1 := by
  obtain ⟨rfl, _, _⟩ := serves.ready
  refine foldlM_congr (fun agent listed count => ?_) 1
  rw [serves.policyCount_eq coherent (List.mem_range.mp listed)]

theorem Serves.counts_jointPolicies
    (acting : ∀ agent < process.agents, 1 ≤ process.actions agent) :
    Bounded.Counts planner.jointPolicyCount
      (∏ agent ∈ Finset.range process.agents, process.policies stages agent) := by
  have counted := Bounded.counts_foldlM_mul
    (fun agent (_ : agent ∈ List.range process.agents) => Bounded.counts_pow (process.actions agent)
      (∑ stage ∈ Finset.range stages, process.observations agent ^ stage))
    (fun agent listed => Nat.pow_pos (acting agent (List.mem_range.mp listed)))
    Nat.one_pos (by decide)
  rw [Nat.one_mul] at counted
  rw [serves.jointPolicyCount_eq coherent]
  exact counted

/-- An agent has as many policies as there are functions from its observation histories to its
actions, and the team as many as there are choices of one for each agent. Both counts are exact if
they are in range and refused otherwise, and they do not depend on the settings. -/
theorem policyCounts_exact :
    (∀ agent < process.agents,
      planner.domainSize agent .observationHistory none =
          .ok (∑ stage ∈ Finset.range stages, process.observations agent ^ stage) ∧
        Bounded.Counts (planner.policyCount agent) (process.policies stages agent)) ∧
    ((∀ agent < process.agents, 1 ≤ process.actions agent) →
      Bounded.Counts planner.jointPolicyCount
        (∏ agent ∈ Finset.range process.agents, process.policies stages agent)) ∧
    ∀ (settings' : Settings) (planner' : Planner W), Serves process stages settings' planner' →
      (∀ agent < process.agents, planner'.policyCount agent = planner.policyCount agent) ∧
        planner'.jointPolicyCount = planner.jointPolicyCount := by
  refine ⟨fun agent known => ?_, serves.counts_jointPolicies coherent, ?_⟩
  · exact ⟨serves.counts_histories coherent known, serves.counts_policies coherent known⟩
  · intro settings' planner' serves'
    constructor
    · intro agent known
      rw [serves.policyCount_eq coherent known, serves'.policyCount_eq coherent known]
    · rw [serves.jointPolicyCount_eq coherent, serves'.jointPolicyCount_eq coherent]

end Serving

/-- Each of two agents has eight policies for its three observation histories. -/
theorem policyCounts_exact_twofold :
    ∃ planner : Planner Rat, Serves .twofold 2 .nothing planner ∧
      DecisionProcess.twofold.Coherent ∧
        (∀ agent < DecisionProcess.twofold.agents, 1 ≤ DecisionProcess.twofold.actions agent) ∧
          planner.policyCount 0 = .ok 8 ∧ planner.jointPolicyCount = .ok 64 := by
  have coherent : DecisionProcess.twofold.Coherent := DecisionProcess.coherent_of_dynamics _
  obtain ⟨planner, made⟩ : ∃ planner : Planner Rat,
      create .twofold (.finite 2) .nothing = .ok planner := by
    apply exists_of_isOk
    decide +kernel
  have acting : ∀ agent < DecisionProcess.twofold.agents,
      1 ≤ DecisionProcess.twofold.actions agent := by decide
  obtain ⟨own, joint, _⟩ := policyCounts_exact (.created made) coherent
  exact ⟨planner, .created made, coherent, acting, (own 0 (by decide)).2, joint acting⟩

end Planner

end TeamPlanning
