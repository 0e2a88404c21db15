import TeamPlanning.Planner.History
import TeamPlanning.Policy.Basic
import TeamPlanning.Policy.Graph

/-! # Policies of a planner

How many elements policies range over and how many policies there are, which policies are valid, how
one policy per agent becomes a joint policy, and how an agent's policy is drawn. Policies range over
histories here; the types of a Bayesian game are turned down. -/

set_option autoImplicit false

namespace TeamPlanning.Planner

variable {W : Type} [Weight W]

/-- How many elements of a domain an agent has before stage `depth?`, or over all stages. -/
def domainSize (planner : Planner W) (agent : Nat) (domain : PolicyDomain) (depth? : Option Nat) :
    Except Fault Nat := do
  let horizon ← planner.stages
  let elements := fun (c : HistoryKind) => do
    let space ← planner.space c
    match depth?.filter (· < horizon) with
    | none => space.count agent
    | some depth => space.firstAt agent depth
  match domain with
  | .observationHistory => elements .observation
  | .actionObservationHistory => elements .actionObservation
  | .type => throw (.meaningless .typeCount)

def policyCount (planner : Planner W) (agent : Nat) : Except Fault Nat := do
  let histories ← (← planner.space .observation).count agent
  Bounded.pow (planner.process.actions agent) histories

def jointPolicyCount (planner : Planner W) : Except Fault Nat :=
  (List.range planner.process.agents).foldlM
    (fun count agent => do Bounded.mul count (← planner.policyCount agent)) 1

/-- Whether the agents' own elements in a joint element of the domain are looked up. -/
def isJointEager (planner : Planner W) (domain : PolicyDomain) : Except Fault Bool := do
  let workspace ← planner.workspace
  match domain with
  | .observationHistory => return workspace.observation.isJointEager
  | .actionObservationHistory => return workspace.actionObservation.isJointEager
  | .type => throw (.meaningless .typeCache)

def individualElements (planner : Planner W) (joint : Nat) :
    PolicyDomain → Except Fault (List Nat)
  | .observationHistory => do (← planner.space .observation).toIndividual joint
  | .actionObservationHistory => do (← planner.space .actionObservation).toIndividual joint
  | .type => .error (.meaningless .typeIndex)

/-- How many joint elements there are in a domain that is not made of types. -/
def jointDomainSize (planner : Planner W) : PolicyDomain → Except Fault Nat
  | .observationHistory => do return (← planner.space .observation).team.total
  | .actionObservationHistory => do return (← planner.space .actionObservation).team.total
  | .type => .ok 0

/-- Whether a policy of an agent ranges over the given domain, covers it, and takes only actions
that the agent has. -/
def validatePolicy (planner : Planner W) (agent : Nat) (policy : PurePolicy)
    (domain : PolicyDomain) : Except Fault Unit := do
  if policy.domain ≠ domain then
    throw (.meaningless (.policyDomain agent policy.domain domain))
  let elements ← planner.domainSize agent domain none
  if policy.actions.size ≠ elements then
    throw (.unsound (.policySize agent policy.actions.size elements domain))
  match policy.actions.toList.find? (planner.process.actions agent ≤ ·) with
  | some action => throw (.missing (.action agent action))
  | none => return ()

/-- The joint action that the agents' policies take together at a joint element of the domain. -/
def jointChoice (planner : Planner W) (policies : List PurePolicy) (domain : PolicyDomain)
    (joint : Nat) : Except Fault Nat := do
  let elements ← planner.individualElements joint domain
  let actions ← (elements.zip policies).mapM fun (element, policy) => policy.action element
  planner.process.jointAction actions

/-- The joint policy made of one valid policy per agent, all over the domain of the first. -/
def joinPolicies (planner : Planner W) (policies : List PurePolicy) :
    Except Fault PureJointPolicy := do
  match policies with
  | [] => throw (.unsound .noPolicies)
  | ⟨domain, _⟩ :: _ =>
      if policies.length ≠ planner.process.agents then
        throw (.unsound (.policyCount policies.length planner.process.agents))
      policies.zipIdx.forM fun (policy, agent) => planner.validatePolicy agent policy domain
      let elements ← planner.jointDomainSize domain
      let jointActions ← (List.range elements).mapM (planner.jointChoice policies domain)
      return { domain, jointActions := jointActions.toArray }

/-- The edges from an observation history to its extensions, none if it is of the last stage. -/
def policyEdges (planner : Planner W) (agent horizon history : Nat) :
    Except Fault (List (Nat × Nat × String)) := do
  let space ← planner.space .observation
  let histories ← space.agent agent
  let stage ← histories.stageOf history
  if horizon ≤ stage + 1 then return []
  (List.range (planner.process.observations agent)).mapM fun observation => do
    let next ← histories.successor history (.observation observation)
    return (history, next, planner.process.observationName agent observation)

/-- The graph of an agent's valid policy over observation histories: one vertex per history,
labelled with the action taken, and one edge per extension, labelled with the observation made. -/
def policyGraph (planner : Planner W) (agent : Nat) (policy : PurePolicy) :
    Except Fault PolicyGraph := do
  planner.validatePolicy agent policy .observationHistory
  let horizon ← planner.stages
  let edges ← (List.range policy.actions.size).mapM (planner.policyEdges agent horizon)
  return {
    vertices := policy.actions.toList.map (planner.process.actionName agent)
    edges := edges.flatten }

/-- The graph of an agent's valid policy in the dot format, with or without labels on its edges. -/
def policyDrawing (planner : Planner W) (agent : Nat) (policy : PurePolicy) (labels : Bool) :
    Except Fault String := do
  return (← planner.policyGraph agent policy).toDot agent labels

end TeamPlanning.Planner
