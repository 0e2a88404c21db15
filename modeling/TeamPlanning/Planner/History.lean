import TeamPlanning.Planner.Basic

/-! # Histories of a planner

The symbols of histories and the way back, for every kind of histories, and how an
action-observation history comes apart: into its actions and its observations, and, if it is joint,
into the agents' own. -/

set_option autoImplicit false

namespace TeamPlanning

/-- The pairs made of a list of actions and an equally long list of observations. -/
def Symbol.pairs (actions observations : List Nat) :
    Except Fault (List (Symbol .actionObservation)) :=
  if actions.length = observations.length then
    .ok (List.zipWith .actionObservation actions observations)
  else .error (.missing (.pairCount actions.length observations.length))

namespace Planner

variable {W : Type} [Weight W]

/-- The symbols of an agent's history, oldest first. -/
def symbols (planner : Planner W) (c : HistoryKind) (agent index : Nat) :
    Except Fault (List (Symbol c)) := do
  (← (← planner.space c).agent agent).symbols index

/-- The symbols of a joint history, oldest first. -/
def jointSymbols (planner : Planner W) (c : HistoryKind) (index : Nat) :
    Except Fault (List (Symbol c)) := do
  (← planner.space c).team.symbols index

/-- The number of the agent's history with the given symbols, oldest first. -/
def indexOf (planner : Planner W) {c : HistoryKind} (agent : Nat) (symbols : List (Symbol c)) :
    Except Fault Nat := do
  (← (← planner.space c).agent agent).indexOf symbols

/-- The number of the joint history with the given symbols, oldest first. -/
def jointIndexOf (planner : Planner W) {c : HistoryKind} (symbols : List (Symbol c)) :
    Except Fault Nat := do
  (← planner.space c).team.indexOf symbols

/-- The numbers of the agent's action history and observation history that an action-observation
history interleaves. -/
def decompose (planner : Planner W) (agent index : Nat) : Except Fault (Nat × Nat) := do
  let symbols ← planner.symbols .actionObservation agent index
  let actions ← planner.indexOf agent ((Symbol.actions symbols).map Symbol.action)
  let observations ← planner.indexOf agent ((Symbol.observations symbols).map Symbol.observation)
  return (actions, observations)

/-- What every agent observed at every stage of a joint observation history, stage by stage. -/
def observationsByStage (planner : Planner W) (index : Nat) : Except Fault (List (List Nat)) := do
  let symbols ← planner.jointSymbols .observation index
  (Symbol.observations symbols).mapM planner.process.individualObservations

/-- The actions and the observations of every agent in a joint action-observation history, agent by
agent. -/
def sequencesByAgent (planner : Planner W) (index : Nat) :
    Except Fault (List (List Nat × List Nat)) := do
  let symbols ← planner.jointSymbols .actionObservation index
  let parts ← symbols.mapM fun | .actionObservation jointAction jointObservation => do
    let actions ← planner.process.individualActions jointAction
    let observations ← planner.process.individualObservations jointObservation
    return (actions, observations)
  return (List.range planner.process.agents).map fun agent =>
    (parts.filterMap (·.1[agent]?), parts.filterMap (·.2[agent]?))

end Planner

end TeamPlanning
