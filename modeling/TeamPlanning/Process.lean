import TeamPlanning.Symbol.Joint
import TeamPlanning.Weight.Basic

/-! # Decision processes

A team of agents acts on a hidden state. What the planner needs to know of it is a decision process:
the alphabets of the agents, the dynamics of the state, and what the agents observe. Joint actions
and joint observations are numbered in mixed radix, the first agent most significant. -/

set_option autoImplicit false

namespace TeamPlanning

/-- The part of a decision process that nothing else determines. -/
structure Dynamics (W : Type) where
  agents : Nat
  states : Nat
  actions : (agent : Nat) → Nat
  observations : (agent : Nat) → Nat
  /-- The probability of moving from a state by a joint action to a next state. -/
  transition : (state jointAction next : Nat) → W
  /-- The probability of a joint observation after a joint action has led to a state. -/
  observation : (jointAction next jointObservation : Nat) → W
  initial : (state : Nat) → W

/-- A decision process. Beside its dynamics it may know its sparsity, and observations that depend
on the state left behind; it may also name actions and observations. -/
structure DecisionProcess (W : Type) extends Dynamics W where
  /-- The probability of a joint observation on the way from one state to another. -/
  eventObservation : (state jointAction next jointObservation : Nat) → W
  /-- The next states that a joint action may lead to, with their probabilities. -/
  successors : (state jointAction : Nat) → List (Nat × W)
  alphabets : List Alphabet
  actionName : (agent action : Nat) → String
  observationName : (agent observation : Nat) → String

/-- The process that knows nothing beyond its dynamics: it scans all states for successors, its
observations ignore the state left behind, and it names actions and observations by number. -/
def Dynamics.process {W : Type} [Weight W] (dynamics : Dynamics W) : DecisionProcess W where
  toDynamics := dynamics
  eventObservation _ jointAction next jointObservation :=
    dynamics.observation jointAction next jointObservation
  successors state jointAction :=
    ((List.range dynamics.states).map fun next =>
      (next, dynamics.transition state jointAction next)).filter (Weight.positive ·.2)
  alphabets := (List.range dynamics.agents).map fun agent =>
    ⟨dynamics.actions agent, dynamics.observations agent⟩
  actionName _ action := (Symbol.action action).text
  observationName _ observation := (Symbol.observation observation).text

namespace DecisionProcess

variable {W : Type}

def jointActions (process : DecisionProcess W) : Except Fault Nat := do
  return (← Alphabet.joint process.alphabets).actions

def jointObservations (process : DecisionProcess W) : Except Fault Nat := do
  return (← Alphabet.joint process.alphabets).observations

def actionSizes (process : DecisionProcess W) : List Nat :=
  (List.range process.agents).map process.actions

def observationSizes (process : DecisionProcess W) : List Nat :=
  (List.range process.agents).map process.observations

def individualActions (process : DecisionProcess W) (jointAction : Nat) : Except Fault (List Nat) :=
  Radix.toIndividual jointAction process.actionSizes

def jointAction (process : DecisionProcess W) (actions : List Nat) : Except Fault Nat :=
  Radix.toJoint actions process.actionSizes

def individualObservations (process : DecisionProcess W) (jointObservation : Nat) :
    Except Fault (List Nat) :=
  Radix.toIndividual jointObservation process.observationSizes

def jointObservation (process : DecisionProcess W) (observations : List Nat) : Except Fault Nat :=
  Radix.toJoint observations process.observationSizes

end DecisionProcess

end TeamPlanning
