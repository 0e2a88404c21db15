import TeamPlanning.Model.Basic
import TeamPlanning.Proofs.History.Splitting
import TeamPlanning.Proofs.Planner.Policies
import TeamPlanning.Proofs.Planner.Upkeep

/-! # Joint policies made of the agents' own

One policy per agent makes a joint policy exactly if each of them has one of its agent's actions for
every history of its agent. The joint policy is then decentralized: what an agent does at a joint
history follows from the agent's own history. -/

set_option autoImplicit false

namespace TeamPlanning

open scoped BigOperators

theorem PurePolicy.action_eq_ok_iff {policy : PurePolicy} {element action : Nat} :
    policy.action element = .ok action ↔ policy.actions[element]? = some action := by
  unfold PurePolicy.action
  cases policy.actions[element]? <;> simp

variable {W : Type}

namespace DecisionProcess

/-- The alphabets are those of the agents' actions and observations. -/
def Coherent (process : DecisionProcess W) : Prop :=
  process.alphabets = (List.range process.agents).map fun agent =>
    ⟨process.actions agent, process.observations agent⟩

theorem coherent_of_dynamics [Weight W] (dynamics : Dynamics W) : dynamics.process.Coherent := rfl

theorem coherent_of_model [Weight W] (model : Model W) : model.process.Coherent := by
  refine List.ext_getElem (by simp [Model.process, Model.dynamics, Dynamics.process]) ?_
  intro agent inside _
  have listed : model.alphabets[agent]? = some model.alphabets[agent] :=
    List.getElem?_eq_getElem inside
  rw [List.getElem_map, List.getElem_range]
  simp only [Model.process, Model.dynamics, Dynamics.process, listed]
  rfl

/-- How many symbols an agent's histories of a domain are made of. -/
def symbolCount (process : DecisionProcess W) (agent : Nat) : PolicyDomain → Nat
  | .observationHistory => process.observations agent
  | .actionObservationHistory => process.actions agent * process.observations agent
  | .type => 0

def elementCount (process : DecisionProcess W) (stages agent : Nat) (domain : PolicyDomain) : Nat :=
  ∑ stage ∈ Finset.range stages, process.symbolCount agent domain ^ stage

/-- There is one policy for each agent, over histories of one kind. It has an action for every
history of the agent before the horizon, and the agent has that action. -/
structure Assembles (process : DecisionProcess W) (stages : Nat) (domain : PolicyDomain)
    (policies : List PurePolicy) : Prop where
  inhabited : policies ≠ []
  complete : policies.length = process.agents
  historical : domain ≠ .type
  shared : ∀ own ∈ policies, own.domain = domain
  covered : ∀ (agent : Nat) own, policies[agent]? = some own →
    own.actions.size = process.elementCount stages agent domain
  known : ∀ (agent : Nat) own, policies[agent]? = some own →
    ∀ action ∈ own.actions, action < process.actions agent

end DecisionProcess

namespace DecisionProcess.Assembles

variable {process : DecisionProcess W} {stages : Nat} {domain : PolicyDomain}
  {policies : List PurePolicy}

/-- What the agents look up in their policies are actions of theirs. -/
theorem actions_lt (assembles : process.Assembles stages domain policies)
    {elements actions : List Nat} (matched : elements.length = policies.length)
    (chosen : ((elements.zip policies).mapM fun pair => pair.2.action pair.1) = .ok actions) :
    List.Forall₂ (· < ·) actions process.actionSizes := by
  obtain ⟨long, each⟩ := mapM_eq_ok_iff_getElem?.mp chosen
  rw [List.length_zip, matched, Nat.min_self] at long
  refine forall₂_iff_getElem?.mpr ⟨?_, fun agent action size taken sized => ?_⟩
  · rw [DecisionProcess.actionSizes, List.length_map, List.length_range, long, assembles.complete]
  · rw [DecisionProcess.actionSizes, List.getElem?_map, Option.map_eq_some_iff] at sized
    obtain ⟨_, ranged, rfl⟩ := sized
    obtain ⟨_, rfl⟩ := List.getElem?_eq_some_iff.mp ranged
    rw [List.getElem_range]
    have seat := (List.getElem?_eq_some_iff.mp taken).1
    rw [long] at seat
    have given := List.getElem?_eq_getElem seat
    have held := List.getElem?_eq_getElem (matched ▸ seat)
    have looked_up := each agent (_, _) action (List.getElem?_zip_eq_some.mpr ⟨held, given⟩) taken
    have listed := PurePolicy.action_eq_ok_iff.mp looked_up
    exact assembles.known agent _ given action (Array.mem_of_getElem? listed)

end DecisionProcess.Assembles

namespace TeamSpace.Splits

variable {c : HistoryKind} {space : TeamSpace c} {process : DecisionProcess W} {stages : Nat}
  (splits : space.Splits process.alphabets stages) (coherent : process.Coherent)
include splits coherent

theorem length_agents : space.agents.length = process.agents := by
  have matched := splits.agents.length_eq
  rw [coherent, List.length_map, List.length_range] at matched
  exact matched

theorem agent {agent : Nat} {histories : HistorySpace c Unit}
    (seated : space.agents[agent]? = some histories) :
    histories.alphabet = ⟨process.actions agent, process.observations agent⟩ ∧
      histories.Reads stages := by
  have inside := (List.getElem?_eq_some_iff.mp seated).1
  rw [splits.length_agents coherent] at inside
  refine (forall₂_iff_getElem?.mp splits.agents).2 agent _ _ seated ?_
  rw [coherent, List.getElem?_map, List.getElem?_range inside]
  rfl

theorem prod_actionSizes_lt : process.actionSizes.prod < wordBound := by
  obtain ⟨⟨product, small⟩, _⟩ := Alphabet.joint_eq_ok splits.joint
  rw [coherent, List.map_map] at product
  rw [product] at small
  exact small

end TeamSpace.Splits

namespace Planner

variable {process : DecisionProcess W} {stages : Nat} {settings : Settings} {planner : Planner W}
  {c : HistoryKind} {space : TeamSpace c} {domain : PolicyDomain} {policies : List PurePolicy}
  {policy : PureJointPolicy}

/-! ## The elements of a domain -/

/-- The planner takes the elements of a domain from a space of histories. -/
structure Spans (planner : Planner W) (domain : PolicyDomain) (space : TeamSpace c) : Prop where
  jointDomainSize : planner.jointDomainSize domain = .ok space.team.total
  domainSize : ∀ agent, planner.domainSize agent domain none = space.count agent
  individualElements : ∀ joint, planner.individualElements joint domain = space.toIndividual joint
  base : ∀ agent base, c.base
    ⟨planner.process.actions agent, planner.process.observations agent⟩ = .ok base →
      base = planner.process.symbolCount agent domain

theorem Serves.exists_spans [Weight W] (serves : Serves process stages settings planner)
    (historical : domain ≠ .type) : ∃ (c : HistoryKind) (space : TeamSpace c),
      planner.Spans domain space ∧ space.Splits process.alphabets stages := by
  obtain ⟨workspace, built, planned, splits⟩ := serves.exists_splits
  obtain ⟨process, horizon, settings, workspace?⟩ := planner
  obtain rfl : workspace? = some workspace := built
  obtain rfl : horizon = .finite stages := planned
  cases domain with
  | type => exact absurd rfl historical
  | observationHistory =>
      refine ⟨.observation, workspace.observation, ⟨rfl, fun _ => rfl, fun _ => rfl, ?_⟩,
        splits .observation⟩
      intro agent base based
      exact (Except.ok.inj based).symm
  | actionObservationHistory =>
      refine ⟨.actionObservation, workspace.actionObservation,
        ⟨rfl, fun _ => rfl, fun _ => rfl, ?_⟩, splits .actionObservation⟩
      intro agent base based
      exact (Bounded.mul_eq_ok_iff.mp based).2

/-! ## Joint choices -/

/-- What the agents do at a joint element under a joint policy: each looks up its own element in its
own policy, and the joint policy takes the joint action that is made of their actions. -/
structure Plays (planner : Planner W) (policies : List PurePolicy) (policy : PureJointPolicy)
    (joint : Nat) (elements actions : List Nat) : Prop where
  read : planner.individualElements joint policy.domain = .ok elements
  taken : ∃ jointAction, policy.jointAction joint = .ok jointAction ∧
    planner.process.individualActions jointAction = .ok actions
  seats : elements.length = policies.length ∧ actions.length = policies.length
  own : ∀ (agent : Nat) own element action, policies[agent]? = some own →
    elements[agent]? = some element → actions[agent]? = some action →
      own.action element = .ok action

/-- An agent cannot tell joint elements apart in which its own element is the same. -/
theorem Plays.decentralized {joint joint' : Nat} {elements elements' actions actions' : List Nat}
    (plays : planner.Plays policies policy joint elements actions)
    (plays' : planner.Plays policies policy joint' elements' actions') {agent : Nat}
    (same : elements[agent]? = elements'[agent]?) : actions[agent]? = actions'[agent]? := by
  by_cases seated : agent < policies.length
  · obtain ⟨seats, seats'⟩ := plays.seats
    have taken := List.getElem?_eq_getElem (seats' ▸ seated)
    have taken' := List.getElem?_eq_getElem (plays'.seats.2 ▸ seated)
    have given := List.getElem?_eq_getElem seated
    have held := List.getElem?_eq_getElem (seats ▸ seated)
    have first := plays.own agent _ _ _ given held taken
    have second := plays'.own agent _ _ _ given (same ▸ held) taken'
    rw [taken, taken', Except.ok.inj (first.symm.trans second)]
  · rw [List.getElem?_eq_none (by rw [plays.seats.2]; exact Nat.le_of_not_lt seated),
      List.getElem?_eq_none (by rw [plays'.seats.2]; exact Nat.le_of_not_lt seated)]

section Elements

variable (spans : planner.Spans domain space)
  (splits : space.Splits planner.process.alphabets stages) (coherent : planner.process.Coherent)
include spans splits coherent

/-- An agent has as many elements as there are words over its symbols before the horizon. -/
theorem total_eq_elementCount {agent : Nat} {histories : HistorySpace c Unit}
    (seated : space.agents[agent]? = some histories) :
    histories.total = planner.process.elementCount stages agent domain := by
  obtain ⟨alphabet, reads⟩ := splits.agent coherent seated
  have based := reads.based
  rw [alphabet] at based
  rw [reads.total, Shortlex.first_eq_sum, spans.base agent _ based]
  rfl

theorem domainSize_eq_elementCount {agent : Nat} (known : agent < planner.process.agents) :
    planner.domainSize agent domain none =
      .ok (planner.process.elementCount stages agent domain) := by
  rw [← splits.length_agents coherent] at known
  have seated := List.getElem?_eq_getElem known
  rw [spans.domainSize, ← total_eq_elementCount spans splits coherent seated, TeamSpace.count,
    TeamSpace.agent, seated]
  rfl

variable (assembles : planner.process.Assembles stages domain policies)
include assembles

theorem exists_jointChoice {joint : Nat} (inside : joint < space.team.total) :
    ∃ jointAction, planner.jointChoice policies domain joint = .ok jointAction := by
  obtain ⟨elements, read, below⟩ := splits.own joint inside
  have agents := splits.length_agents coherent
  have matched : elements.length = policies.length := by
    rw [below.length_eq, agents, assembles.complete]
  have looked_up : ∀ pair ∈ elements.zip policies,
      ∃ action, pair.2.action pair.1 = .ok action := by
    rintro ⟨element, own⟩ member
    obtain ⟨agent, listed⟩ := List.mem_iff_getElem?.mp member
    obtain ⟨held, given⟩ := List.getElem?_zip_eq_some.mp listed
    have seat := (List.getElem?_eq_some_iff.mp given).1
    rw [assembles.complete, ← agents] at seat
    have seated := List.getElem?_eq_getElem seat
    have present := (forall₂_iff_getElem?.mp below.flip).2 agent _ _ seated held
    have size : own.actions.size = _ := assembles.covered agent own given
    rw [total_eq_elementCount spans splits coherent seated, ← size] at present
    exact ⟨_, PurePolicy.action_eq_ok_iff.mpr (Array.getElem?_eq_getElem present)⟩
  obtain ⟨actions, chosen⟩ := exists_mapM_eq_ok looked_up
  obtain ⟨jointAction, joined⟩ := Radix.exists_toIndividual (assembles.actions_lt matched chosen)
  have small := Nat.lt_trans (Radix.forall₂_of_toIndividual joined).2
    (splits.prod_actionSizes_lt coherent)
  refine ⟨jointAction, ?_⟩
  unfold jointChoice
  rw [spans.individualElements, bind_of_eq_ok read, bind_of_eq_ok chosen]
  exact Radix.toJoint_eq_ok_iff_toIndividual.mpr ⟨joined, small⟩

/-- A joint choice is made of the agents' actions at their own elements. -/
theorem plays_of_jointChoice {joint jointAction : Nat}
    (inside : joint < space.team.total)
    (chosen : planner.jointChoice policies domain joint = .ok jointAction)
    (ranges : policy.domain = domain) (taken : policy.jointAction joint = .ok jointAction) :
    ∃ elements actions, planner.Plays policies policy joint elements actions := by
  subst ranges
  obtain ⟨elements, read, chosen⟩ := bind_eq_ok_iff.mp chosen
  obtain ⟨actions, looked_up, joined⟩ := bind_eq_ok_iff.mp chosen
  obtain ⟨elements', read', below⟩ := splits.own joint inside
  obtain rfl : elements' = elements :=
    Except.ok.inj ((read'.symm.trans (spans.individualElements joint).symm).trans read)
  have matched : elements'.length = policies.length := by
    rw [below.length_eq, splits.length_agents coherent, assembles.complete]
  obtain ⟨long, each⟩ := mapM_eq_ok_iff_getElem?.mp looked_up
  rw [List.length_zip, matched, Nat.min_self] at long
  refine ⟨elements', actions, read, ⟨jointAction, taken, ?_⟩, ⟨matched, long⟩, ?_⟩
  · exact (Radix.toJoint_eq_ok_iff_toIndividual.mp joined).1
  · intro agent own element action given held taken
    exact each agent (element, own) action (List.getElem?_zip_eq_some.mpr ⟨held, given⟩) taken

end Elements

/-- Policies over types are turned down by the first agent already. -/
theorem historical_of_joinPolicies (joined : planner.joinPolicies policies = .ok policy) :
    policy.domain ≠ .type := by
  intro typed
  obtain ⟨first, _, valid, _⟩ := joinPolicies_eq_ok_iff.mp joined
  obtain ⟨own, listed, _⟩ := Option.map_eq_some_iff.mp first
  rw [List.head?_eq_getElem?] at listed
  obtain ⟨_, counted, _⟩ := validatePolicy_eq_ok_iff.mp (valid 0 own listed)
  rw [typed] at counted
  obtain ⟨_, _, counted⟩ := bind_eq_ok_iff.mp counted
  cases counted

section Joining

variable [Weight W] (serves : Serves process stages settings planner) (coherent : process.Coherent)
include serves coherent

theorem assembles_of_joinPolicies (joined : planner.joinPolicies policies = .ok policy) :
    process.Assembles stages policy.domain policies := by
  obtain ⟨rfl, _, _⟩ := serves.ready
  have historical := historical_of_joinPolicies joined
  obtain ⟨c, space, spans, splits⟩ := serves.exists_spans historical
  obtain ⟨first, complete, valid, _⟩ := joinPolicies_eq_ok_iff.mp joined
  have each := fun agent own listed => validatePolicy_eq_ok_iff.mp (valid agent own listed)
  refine ⟨?_, complete, historical, ?_, ?_, fun agent own listed => (each agent own listed).2.2⟩
  · intro empty
    rw [empty] at first
    cases first
  · intro own member
    obtain ⟨agent, listed⟩ := List.mem_iff_getElem?.mp member
    exact (each agent own listed).1
  · intro agent own listed
    have seated := (List.getElem?_eq_some_iff.mp listed).1
    rw [complete] at seated
    have counted := (each agent own listed).2.1
    rw [domainSize_eq_elementCount spans splits coherent seated] at counted
    exact (Except.ok.inj counted).symm

theorem exists_joinPolicies (assembles : process.Assembles stages domain policies) :
    ∃ policy, planner.joinPolicies policies = .ok policy ∧ policy.domain = domain := by
  obtain ⟨rfl, _, _⟩ := serves.ready
  obtain ⟨c, space, spans, splits⟩ := serves.exists_spans assembles.historical
  have choices : ∀ joint ∈ List.range space.team.total,
      ∃ jointAction, planner.jointChoice policies domain joint = .ok jointAction :=
    fun joint listed => exists_jointChoice spans splits coherent assembles (List.mem_range.mp listed)
  obtain ⟨jointActions, chosen⟩ := exists_mapM_eq_ok choices
  obtain ⟨first, others, listed⟩ := List.exists_cons_of_ne_nil assembles.inhabited
  refine ⟨⟨domain, jointActions.toArray⟩, joinPolicies_eq_ok_iff.mpr
    ⟨?_, assembles.complete, ?_, space.team.total, spans.jointDomainSize, chosen⟩, rfl⟩
  · have shared := assembles.shared first (by rw [listed]; exact List.mem_cons_self)
    rw [listed, List.head?_cons, Option.map_some, shared]
  · intro agent own given
    have seated := (List.getElem?_eq_some_iff.mp given).1
    rw [assembles.complete] at seated
    refine validatePolicy_eq_ok_iff.mpr
      ⟨assembles.shared own (List.mem_of_getElem? given), ?_, assembles.known agent own given⟩
    rw [domainSize_eq_elementCount spans splits coherent seated, assembles.covered agent own given]

/-- At every joint element the agents' policies are played. -/
theorem exists_plays (joined : planner.joinPolicies policies = .ok policy) {total joint : Nat}
    (counted : planner.jointDomainSize policy.domain = .ok total) (inside : joint < total) :
    ∃ elements actions, planner.Plays policies policy joint elements actions := by
  obtain ⟨rfl, _, _⟩ := serves.ready
  have assembles := assembles_of_joinPolicies serves coherent joined
  obtain ⟨c, space, spans, splits⟩ := serves.exists_spans assembles.historical
  obtain rfl : space.team.total = total :=
    Except.ok.inj (spans.jointDomainSize.symm.trans counted)
  obtain ⟨_, _, _, _, counted', chosen⟩ := joinPolicies_eq_ok_iff.mp joined
  cases counted.symm.trans counted'
  obtain ⟨long, each⟩ := mapM_eq_ok_iff_getElem?.mp chosen
  rw [List.length_range, Array.length_toList] at long
  have present : joint < policy.jointActions.size := by omega
  have listed := Array.getElem?_eq_getElem present
  have choice := each joint joint _ (List.getElem?_range inside)
    (Array.getElem?_toList.trans listed)
  refine plays_of_jointChoice spans splits coherent assembles inside choice rfl ?_
  rw [PureJointPolicy.jointAction, listed]

omit coherent in
theorem missing_beyond (joined : planner.joinPolicies policies = .ok policy) {total joint : Nat}
    (counted : planner.jointDomainSize policy.domain = .ok total) (beyond : total ≤ joint) :
    (∃ cause, policy.jointAction joint = .error (.missing cause)) ∧
      ∃ cause, planner.individualElements joint policy.domain = .error (.missing cause) := by
  obtain ⟨c, space, spans, splits⟩ := serves.exists_spans (historical_of_joinPolicies joined)
  obtain rfl : policy.jointActions.size = total :=
    Except.ok.inj ((joinPolicies_eq_ok joined).1.symm.trans counted)
  have total : space.team.total = policy.jointActions.size :=
    Except.ok.inj (spans.jointDomainSize.symm.trans counted)
  constructor
  · rw [PureJointPolicy.jointAction, Array.getElem?_eq_none beyond]
    exact ⟨_, rfl⟩
  · rw [spans.individualElements]
    exact splits.beyond joint (total ▸ beyond)

/-- Policies are joined exactly if they assemble: one for each agent, over one domain of histories,
each with an action of its agent at every element. The joint policy then plays the agents' policies
at every joint element, so an agent cannot tell joint elements apart by more than its own element,
and beyond the joint elements nothing is played. -/
theorem joinPolicies_decentralized :
    (∀ domain, domain ≠ .type → ∀ agent < process.agents,
      planner.domainSize agent domain none = .ok (process.elementCount stages agent domain)) ∧
    ∀ policies,
      ((∃ policy, planner.joinPolicies policies = .ok policy) ↔
        ∃ domain, process.Assembles stages domain policies) ∧
      ∀ policy, planner.joinPolicies policies = .ok policy →
        process.Assembles stages policy.domain policies ∧
        ∃ total, planner.jointDomainSize policy.domain = .ok total ∧
          (∀ joint < total, ∃ elements actions,
            planner.Plays policies policy joint elements actions) ∧
          (∀ joint joint' (elements elements' actions actions' : List Nat),
            planner.Plays policies policy joint elements actions →
              planner.Plays policies policy joint' elements' actions' →
                ∀ agent : Nat, elements[agent]? = elements'[agent]? →
                  actions[agent]? = actions'[agent]?) ∧
          ∀ joint, total ≤ joint →
            (∃ cause, policy.jointAction joint = .error (.missing cause)) ∧
              ∃ cause, planner.individualElements joint policy.domain =
                .error (.missing cause) := by
  have same := serves.ready.1
  subst same
  refine ⟨fun domain historical agent seated => ?_, fun policies => ⟨⟨?_, ?_⟩, ?_⟩⟩
  · obtain ⟨c, space, spans, splits⟩ := serves.exists_spans historical
    exact domainSize_eq_elementCount spans splits coherent seated
  · intro given
    obtain ⟨policy, joined⟩ := given
    exact ⟨policy.domain, assembles_of_joinPolicies serves coherent joined⟩
  · intro given
    obtain ⟨domain, assembles⟩ := given
    obtain ⟨policy, joined, _⟩ := exists_joinPolicies serves coherent assembles
    exact ⟨policy, joined⟩
  · intro policy joined
    have assembles := assembles_of_joinPolicies serves coherent joined
    have counted := (joinPolicies_eq_ok joined).1
    refine ⟨assembles, _, counted, fun joint => exists_plays serves coherent joined counted, ?_,
      fun joint => missing_beyond serves joined counted⟩
    intro _ _ _ _ _ _ plays plays' agent
    exact plays.decentralized plays'

end Joining

end Planner

/-- Two agents, each of whom has two actions and two observations in the only state. -/
def DecisionProcess.twofold : DecisionProcess Rat :=
  Dynamics.process { DecisionProcess.steady.toDynamics with
    agents := 2
    observations := fun _ => 2 }

namespace Planner

theorem joinPolicies_decentralized_twofold :
    ∃ planner : Planner Rat, Serves .twofold 2 .nothing planner ∧
      DecisionProcess.twofold.Coherent ∧
        ∃ policy, planner.joinPolicies [⟨.observationHistory, #[0, 1, 1]⟩,
            ⟨.observationHistory, #[1, 0, 1]⟩] = .ok policy ∧
          ∃ total, planner.jointDomainSize policy.domain = .ok total ∧
            ∀ joint < total, ∃ elements actions, planner.Plays
              [⟨.observationHistory, #[0, 1, 1]⟩, ⟨.observationHistory, #[1, 0, 1]⟩]
              policy joint elements actions := by
  have coherent : DecisionProcess.twofold.Coherent := DecisionProcess.coherent_of_dynamics _
  obtain ⟨planner, made⟩ : ∃ planner : Planner Rat,
      create .twofold (.finite 2) .nothing = .ok planner := by
    apply exists_of_isOk
    decide +kernel
  have assembles : DecisionProcess.twofold.Assembles 2 .observationHistory
      [⟨.observationHistory, #[0, 1, 1]⟩, ⟨.observationHistory, #[1, 0, 1]⟩] := by
    refine ⟨by simp, rfl, by simp, by simp, ?_, ?_⟩
    all_goals
      intro agent own given
      match agent with
      | 0 =>
          cases given
          decide
      | 1 =>
          cases given
          decide
  obtain ⟨_, joins⟩ := joinPolicies_decentralized (.created made) coherent
  obtain ⟨accepted, decentralized⟩ := joins _
  obtain ⟨policy, joined⟩ := accepted.mpr ⟨_, assembles⟩
  obtain ⟨_, total, counted, plays, _⟩ := decentralized policy joined
  exact ⟨planner, .created made, coherent, policy, joined, total, counted, plays⟩

end Planner

end TeamPlanning
