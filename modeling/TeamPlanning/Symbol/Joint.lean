import TeamPlanning.Radix
import TeamPlanning.Symbol.Digit

/-! # Joint symbols

The team's alphabet is the product of the agents' alphabets. A joint symbol splits into one symbol
per agent, and one symbol per agent joins into a joint symbol; pairs do so part by part. -/

set_option autoImplicit false

namespace TeamPlanning

def Alphabet.joint (agents : List Alphabet) : Except Fault Alphabet := do
  let actions ← Bounded.prod (agents.map (·.actions))
  let observations ← Bounded.prod (agents.map (·.observations))
  return { actions, observations }

namespace Symbol

def parts : {c : HistoryKind} → Symbol c → List Alphabet → Except Fault (List (Symbol c))
  | _, .observation o, agents => do
      let parts ← Radix.toIndividual o (agents.map (·.observations))
      return parts.map .observation
  | _, .action a, agents => do
      let parts ← Radix.toIndividual a (agents.map (·.actions))
      return parts.map .action
  | _, .actionObservation a o, agents => do
      let actions ← Radix.toIndividual a (agents.map (·.actions))
      let observations ← Radix.toIndividual o (agents.map (·.observations))
      return List.zipWith .actionObservation actions observations

def observations : {c : HistoryKind} → List (Symbol c) → List Nat
  | .observation, symbols => symbols.map fun | .observation o => o
  | .action, _ => []
  | .actionObservation, symbols => symbols.map fun | .actionObservation _ o => o

def actions : {c : HistoryKind} → List (Symbol c) → List Nat
  | .observation, _ => []
  | .action, symbols => symbols.map fun | .action a => a
  | .actionObservation, symbols => symbols.map fun | .actionObservation a _ => a

def ofParts : {c : HistoryKind} → List (Symbol c) → List Alphabet → Except Fault (Symbol c)
  | .observation, parts, agents => do
      return .observation (← Radix.toJoint (observations parts) (agents.map (·.observations)))
  | .action, parts, agents => do
      return .action (← Radix.toJoint (actions parts) (agents.map (·.actions)))
  | .actionObservation, parts, agents => do
      let action ← Radix.toJoint (actions parts) (agents.map (·.actions))
      let observation ← Radix.toJoint (observations parts) (agents.map (·.observations))
      return .actionObservation action observation

end Symbol

end TeamPlanning
