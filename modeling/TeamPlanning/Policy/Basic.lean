import TeamPlanning.Fault.Basic
import TeamPlanning.Weight.Basic

/-! # Policies

A pure policy of an agent takes one action at every element of its domain. A joint policy, as
realization probabilities see it, puts a probability on every joint action at every joint element of
its domain. -/

set_option autoImplicit false

namespace TeamPlanning

/-- The kind of histories over which the policies of a domain are defined. -/
def PolicyDomain.historyKind : PolicyDomain → Except Fault HistoryKind
  | .observationHistory => .ok .observation
  | .actionObservationHistory => .ok .actionObservation
  | .type => .error (.meaningless .typeHistories)

/-- An agent's policy: `actions[i]` is taken at element `i` of the domain. -/
structure PurePolicy where
  domain : PolicyDomain
  actions : Array Nat
  deriving DecidableEq, Repr

def PurePolicy.action (policy : PurePolicy) (index : Nat) : Except Fault Nat :=
  match policy.actions[index]? with
  | some action => .ok action
  | none => .error (.missing (.policyElement policy.domain index policy.actions.size))

/-- A joint policy. -/
structure JointPolicy (W : Type) where
  domain : PolicyDomain
  /-- The probability of a joint action at a joint element of the domain. -/
  probability : (joint jointAction : Nat) → Except Fault W

/-- A joint policy that takes one joint action at every joint element of its domain. -/
structure PureJointPolicy where
  domain : PolicyDomain
  jointActions : Array Nat
  deriving DecidableEq, Repr

namespace PureJointPolicy

def jointAction (policy : PureJointPolicy) (joint : Nat) : Except Fault Nat :=
  match policy.jointActions[joint]? with
  | some jointAction => .ok jointAction
  | none =>
      .error (.missing (.jointPolicyElement policy.domain joint policy.jointActions.size))

/-- The joint policy that puts all probability on the joint action taken. -/
def toJointPolicy {W : Type} [Weight W] (policy : PureJointPolicy) : JointPolicy W where
  domain := policy.domain
  probability joint jointAction := do
    return if (← policy.jointAction joint) = jointAction then Weight.one else Weight.zero

end PureJointPolicy

/-- A joint policy that draws joint actions: `choices[x][a]` is the probability of joint action `a`
at joint element `x` of the domain. -/
structure StochasticJointPolicy (W : Type) where
  domain : PolicyDomain
  choices : List (List W)

def StochasticJointPolicy.toJointPolicy {W : Type} (policy : StochasticJointPolicy W) :
    JointPolicy W where
  domain := policy.domain
  probability joint jointAction :=
    match policy.choices[joint]?.bind (·[jointAction]?) with
    | some p => .ok p
    | none => .error (.missing (.jointChoice joint jointAction))

end TeamPlanning
