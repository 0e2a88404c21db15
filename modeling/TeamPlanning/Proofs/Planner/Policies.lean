import TeamPlanning.Proofs.Planner.Walk

/-! # Choices of joint policies

A joint policy that is made of one policy per agent takes exactly one joint action at every joint
history. -/

set_option autoImplicit false

namespace TeamPlanning

/-- A joint action is one of as many as there are choices of one action for each agent. -/
theorem DecisionProcess.jointAction_lt {W : Type} {process : DecisionProcess W} {actions : List Nat}
    {jointAction : Nat} (joined : process.jointAction actions = .ok jointAction) :
    jointAction < process.actionSizes.prod :=
  (Radix.forall₂_of_toIndividual (Radix.toJoint_eq_ok_iff_toIndividual.mp joined).1).2

namespace Planner

variable {W : Type} {planner : Planner W} {policies : List PurePolicy} {policy : PureJointPolicy}

theorem validatePolicy_eq_ok_iff {agent : Nat} {own : PurePolicy} {domain : PolicyDomain} :
    planner.validatePolicy agent own domain = .ok () ↔
      own.domain = domain ∧ planner.domainSize agent domain none = .ok own.actions.size ∧
        ∀ action ∈ own.actions, action < planner.process.actions agent := by
  have searched : own.actions.toList.find? (planner.process.actions agent ≤ ·) = none ↔
      ∀ action ∈ own.actions, action < planner.process.actions agent := by
    simp
  rw [validatePolicy]
  constructor
  · intro valid
    split at valid
    · cases valid
    · rename_i same
      obtain ⟨elements, counted, valid⟩ := bind_eq_ok_iff.mp valid
      dsimp only at valid
      by_cases sized : own.actions.size = elements
      · subst sized
        rw [if_neg (not_not_intro rfl)] at valid
        split at valid
        · cases valid
        · rename_i absent
          exact ⟨not_not.mp same, counted, searched.mp absent⟩
      · rw [if_pos sized] at valid
        cases valid
  · intro given
    obtain ⟨same, counted, known⟩ := given
    rw [if_neg (not_not_intro same), bind_of_eq_ok counted, if_neg (not_not_intro rfl),
      searched.mpr known]
    rfl

/-- Policies are joined if there are any, one per agent and all valid over the domain of the first,
and the joint choice is then made at every joint element. -/
theorem joinPolicies_eq_ok_iff :
    planner.joinPolicies policies = .ok policy ↔
      policies.head?.map (·.domain) = some policy.domain ∧
        policies.length = planner.process.agents ∧
        (∀ (agent : Nat) own, policies[agent]? = some own →
          planner.validatePolicy agent own policy.domain = .ok ()) ∧
        ∃ total, planner.jointDomainSize policy.domain = .ok total ∧
          (List.range total).mapM (planner.jointChoice policies policy.domain) =
            .ok policy.jointActions.toList := by
  have validated : ∀ domain, (policies.zipIdx.forM fun entry =>
        planner.validatePolicy entry.2 entry.1 domain) = .ok () ↔
      ∀ (agent : Nat) own, policies[agent]? = some own →
        planner.validatePolicy agent own domain = .ok () := by
    intro domain
    rw [forM_eq_ok_iff]
    simp only [Prod.forall, List.mk_mem_zipIdx_iff_getElem?]
    exact forall_comm
  cases policies with
  | nil =>
      constructor
      · intro joined
        cases joined
      · intro given
        cases given.1
  | cons first others =>
      obtain ⟨domain, firstActions⟩ := first
      rw [joinPolicies]
      constructor
      · intro joined
        split at joined
        · cases joined
        · rename_i matched
          obtain ⟨_, valid, joined⟩ := bind_eq_ok_iff.mp joined
          obtain ⟨total, counted, joined⟩ := bind_eq_ok_iff.mp joined
          obtain ⟨jointActions, chosen, joined⟩ := bind_eq_ok_iff.mp joined
          cases joined
          exact ⟨rfl, not_not.mp matched, (validated _).mp valid, total, counted, chosen⟩
      · intro given
        obtain ⟨same, matched, valid, total, counted, chosen⟩ := given
        obtain rfl : domain = policy.domain := Option.some.inj same
        rw [if_neg (not_not_intro matched)]
        refine (bind_of_eq_ok ((validated _).mpr valid) _).trans ?_
        rw [bind_of_eq_ok counted, bind_of_eq_ok chosen]
        rfl

theorem joinPolicies_eq_ok (joined : planner.joinPolicies policies = .ok policy) :
    planner.jointDomainSize policy.domain = .ok policy.jointActions.size ∧
      ∀ jointAction ∈ policy.jointActions, jointAction < planner.process.actionSizes.prod := by
  obtain ⟨_, _, _, total, counted, chosen⟩ := joinPolicies_eq_ok_iff.mp joined
  obtain ⟨long, visited⟩ := mapM_eq_ok_iff_getElem?.mp chosen
  rw [List.length_range, Array.length_toList] at long
  constructor
  · rw [counted, long]
  · intro jointAction member
    obtain ⟨place, inside, rfl⟩ := List.mem_iff_getElem.mp (Array.mem_toList_iff.mpr member)
    have choice := visited place place _
      (List.getElem?_range (by rwa [Array.length_toList, long] at inside))
      (List.getElem?_eq_getElem inside)
    obtain ⟨elements, _, choice⟩ := bind_eq_ok_iff.mp choice
    obtain ⟨actions, _, choice⟩ := bind_eq_ok_iff.mp choice
    exact DecisionProcess.jointAction_lt choice

variable [Weight W]

theorem probability_toJointPolicy {element jointAction : Nat}
    (taken : policy.jointActions[element]? = some jointAction) (other : Nat) :
    (policy.toJointPolicy (W := W)).probability element other =
      .ok (if jointAction = other then Weight.one else Weight.zero) := by
  have found : policy.jointAction element = .ok jointAction := by
    rw [PureJointPolicy.jointAction, taken]
  exact bind_of_eq_ok found _

namespace Ready

variable {stages : Nat} {workspace : Workspace W} (ready : planner.Ready stages workspace)
include ready

theorem alphabet_eq : workspace.observation.team.alphabet =
    workspace.actionObservation.team.alphabet :=
  Except.ok.inj (ready.joint.symm.trans ready.intact.1)

/-- What is observed in a joint history is itself a joint history. -/
theorem exists_observed {index : Nat} (inside : index < workspace.actionObservation.team.total) :
    ∃ observed, observed < workspace.observation.team.total ∧
      planner.jointIndexOf ((Symbol.observations
        (workspace.actionObservation.team.word index)).map Symbol.observation) = .ok observed := by
  obtain ⟨within, short⟩ := ready.reads.proper index inside
  have known : ∀ symbol ∈ (Symbol.observations
      (workspace.actionObservation.team.word index)).map Symbol.observation,
        symbol.within workspace.observation.team.alphabet = true := by
    intro symbol member
    rw [Symbol.observations, List.map_map] at member
    obtain ⟨pair, listed, rfl⟩ := List.mem_map.mp member
    cases pair with
    | actionObservation jointAction jointObservation =>
        have parts := within _ listed
        rw [← ready.alphabet_eq, Symbol.within, Bool.and_eq_true] at parts
        exact parts.2
  obtain ⟨observed, present, spelled⟩ := ready.observation.numbered _ known
    (by simpa [Symbol.observations] using short)
  refine ⟨observed, present, ?_⟩
  rw [jointIndexOf, bind_of_eq_ok (ready.space .observation)]
  exact (ready.observation.indexOf _ _).mpr ⟨present, spelled⟩

/-- The joint action that a policy takes after a joint history is found wherever its domain has an
element for every history. -/
theorem exists_choice (sized : planner.jointDomainSize policy.domain = .ok policy.jointActions.size)
    (historical : policy.domain ≠ .type) {index : Nat}
    (inside : index < workspace.actionObservation.team.total) :
    ∃ taken ∈ policy.jointActions, ∀ jointAction,
      planner.choiceProbability (some policy.toJointPolicy)
          (Symbol.observations (workspace.actionObservation.team.word index)) index jointAction =
        .ok (if taken = jointAction then Weight.one else Weight.zero) := by
  have listed : ∀ element, element < policy.jointActions.size →
      ∃ taken ∈ policy.jointActions, policy.jointActions[element]? = some taken := by
    intro element present
    exact ⟨_, Array.getElem_mem present, Array.getElem?_eq_getElem present⟩
  cases domain : policy.domain with
  | type => exact absurd domain historical
  | observationHistory =>
      obtain ⟨observed, present, found⟩ := ready.exists_observed inside
      rw [domain, jointDomainSize, bind_of_eq_ok (ready.space .observation)] at sized
      obtain ⟨taken, member, entry⟩ := listed observed
        (Nat.lt_of_lt_of_eq present (Except.ok.inj sized))
      refine ⟨taken, member, fun jointAction => ?_⟩
      simp only [choiceProbability, PureJointPolicy.toJointPolicy, domain]
      refine (bind_of_eq_ok found _).trans ?_
      exact probability_toJointPolicy entry jointAction
  | actionObservationHistory =>
      rw [domain, jointDomainSize, bind_of_eq_ok (ready.space .actionObservation)] at sized
      obtain ⟨taken, member, entry⟩ := listed index
        (Nat.lt_of_lt_of_eq inside (Except.ok.inj sized))
      refine ⟨taken, member, fun jointAction => ?_⟩
      simp only [choiceProbability, PureJointPolicy.toJointPolicy, domain]
      exact probability_toJointPolicy entry jointAction

end Ready

end Planner

end TeamPlanning
