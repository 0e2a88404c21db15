import TeamPlanning.Planner.History
import TeamPlanning.Policy.Basic

/-! # Planners and histories in words

A planner is described by its inputs and by the number of histories of every kind. Histories are
written out under the names that the process gives to actions and observations. -/

set_option autoImplicit false

namespace TeamPlanning

namespace Wording

/-- The symbols of a history between angle brackets; the empty history has a name of its own. -/
def history : List String → String
  | [] => "<EMPTY>"
  | symbols => "<" ++ ", ".intercalate symbols ++ ">"

def pair (action observation : String) : String := "(" ++ action ++ ", " ++ observation ++ ")"

def joint (parts : List String) : String := "<" ++ " ".intercalate parts ++ ">"

end Wording

namespace DecisionProcess

variable {W : Type}

def symbolName (process : DecisionProcess W) (agent : Nat) : {c : HistoryKind} → Symbol c → String
  | _, .observation o => process.observationName agent o
  | _, .action a => process.actionName agent a
  | _, .actionObservation a o =>
      Wording.pair (process.actionName agent a) (process.observationName agent o)

def jointActionName (process : DecisionProcess W) (jointAction : Nat) : Except Fault String := do
  let actions ← process.individualActions jointAction
  return Wording.joint (actions.zipIdx.map fun (a, agent) => process.actionName agent a)

def jointObservationName (process : DecisionProcess W) (jointObservation : Nat) :
    Except Fault String := do
  let observations ← process.individualObservations jointObservation
  return Wording.joint (observations.zipIdx.map fun (o, agent) => process.observationName agent o)

def jointSymbolName (process : DecisionProcess W) :
    {c : HistoryKind} → Symbol c → Except Fault String
  | _, .observation o => process.jointObservationName o
  | _, .action a => process.jointActionName a
  | _, .actionObservation a o => do
      return Wording.pair (← process.jointActionName a) (← process.jointObservationName o)

end DecisionProcess

namespace Planner

variable {W : Type} [Weight W]

/-- An agent's history, written out. -/
def historyText (planner : Planner W) (c : HistoryKind) (agent index : Nat) :
    Except Fault String := do
  let symbols ← planner.symbols c agent index
  return Wording.history (symbols.map (planner.process.symbolName agent))

/-- A joint history, written out. -/
def jointHistoryText (planner : Planner W) (c : HistoryKind) (index : Nat) :
    Except Fault String := do
  let symbols ← planner.jointSymbols c index
  return Wording.history (← symbols.mapM planner.process.jointSymbolName)

/-- An element of an agent's policy domain, written out. -/
def elementText (planner : Planner W) (agent index : Nat) (domain : PolicyDomain) :
    Except Fault String := do
  match ← domain.historyKind with
  | .observation => planner.historyText .observation agent index
  | .actionObservation => planner.historyText .actionObservation agent index
  | .action => throw (.meaningless (.policyKind .action))

/-- How many histories of a kind every agent has, and how many joint ones there are. -/
def countsText {c : HistoryKind} (agents : Nat) (space : TeamSpace c) : String :=
  let counts := (List.range agents).map fun agent => (space.count agent).toOption.getD 0
  Text.list counts ++ " joint " ++ toString space.team.total

/-- The inputs of the planner and how many histories it keeps books of. -/
def text (planner : Planner W) : String :=
  let agents := planner.process.agents
  "horizon " ++ planner.horizon.text ++ " agents " ++ toString agents ++ "\n" ++
    planner.settings.text ++ "\n" ++
    match planner.workspace? with
    | none => "no history bookkeeping"
    | some workspace =>
        "observation histories        " ++ countsText agents workspace.observation ++ "\n" ++
          "action histories             " ++ countsText agents workspace.action ++ "\n" ++
          "action-observation histories " ++ countsText agents workspace.actionObservation

end Planner

end TeamPlanning
