import TeamPlanning.History.Team
import TeamPlanning.Horizon.Parse
import TeamPlanning.Realization
import TeamPlanning.Settings.Basic

/-! # Planners

A planner keeps the books of a decision process: for a finite horizon, the histories of every kind
and, where joint action-observation histories are kept eagerly, their realizations. All of this is
its workspace. It follows from three inputs, the process, the horizon and the settings. Whenever one
of them changes, the workspace is dropped and built anew. A planner whose workspace could not be
built, or whose horizon is infinite, has none. -/

set_option autoImplicit false

namespace TeamPlanning

/-- What follows from a process, a finite horizon and settings. -/
structure Workspace (W : Type) where
  observation : TeamSpace .observation
  action : TeamSpace .action
  actionObservation : TeamSpace .actionObservation
  realizations? : Option (Realizations W)

namespace Workspace

variable {W : Type} [Weight W]

def space (workspace : Workspace W) : (c : HistoryKind) → TeamSpace c
  | .observation => workspace.observation
  | .action => workspace.action
  | .actionObservation => workspace.actionObservation

def realize (process : DecisionProcess W) (settings : Settings)
    (space : TeamSpace .actionObservation) : Realizations W :=
  Realizations.ofList settings.cachedBeliefs
    (Realization.stages process settings.eventObservability space.team.alphabet space.team.base
      (space.team.layout.stages - 1) [Realization.start process settings.sparseBeliefs])

def build (process : DecisionProcess W) (stages : Nat) (settings : Settings) :
    Except Fault (Workspace W) := do
  let spaceOf := fun (c : HistoryKind) =>
    TeamSpace.create (c := c) process.alphabets stages (settings.individual.get c)
      (settings.joint.get c)
  let observation ← spaceOf .observation
  let action ← spaceOf .action
  let actionObservation ← spaceOf .actionObservation
  let realizations? :=
    if settings.joint.actionObservation then some (realize process settings actionObservation)
    else none
  return { observation, action, actionObservation, realizations? }

/-- The workspace that three inputs call for: none if the horizon is infinite. -/
def demanded (process : DecisionProcess W) (horizon : Horizon) (settings : Settings) :
    Except Fault (Option (Workspace W)) := do
  settings.validate
  match horizon with
  | .infinite => return none
  | .finite 0 => throw (.unsound .emptyHorizon)
  | .finite stages => return some (← build process stages settings)

end Workspace

/-- A process, a horizon and settings, with the workspace that was built from them. -/
structure Planner (W : Type) where
  process : DecisionProcess W
  horizon : Horizon
  settings : Settings
  workspace? : Option (Workspace W)

namespace Planner

variable {W : Type} [Weight W]

def create (process : DecisionProcess W) (horizon : Horizon) (settings : Settings) :
    Except Fault (Planner W) := do
  return { process, horizon, settings
           workspace? := ← Workspace.demanded process horizon settings }

def refresh (planner : Planner W) : Except Fault Unit × Planner W :=
  match Workspace.demanded planner.process planner.horizon planner.settings with
  | .error fault => (.error fault, { planner with workspace? := none })
  | .ok workspace? => (.ok (), { planner with workspace? })

/-- Plans for another process. Where that fails, the process is kept without a workspace. -/
def setProcess (planner : Planner W) (process : DecisionProcess W) :
    Except Fault Unit × Planner W :=
  { planner with process }.refresh

/-- Plans for another horizon. Where that fails, the horizon is kept without a workspace. -/
def setHorizon (planner : Planner W) (horizon : Horizon) : Except Fault Unit × Planner W :=
  { planner with horizon }.refresh

/-- Plans with other settings. Settings that fail their check leave the planner as it was. -/
def setSettings (planner : Planner W) (settings : Settings) : Except Fault Unit × Planner W :=
  match settings.validate with
  | .error fault => (.error fault, planner)
  | .ok () => { planner with settings }.refresh

/-- The workspace, or the fault that there is none. -/
def workspace (planner : Planner W) : Except Fault (Workspace W) :=
  match planner.workspace? with
  | some workspace => .ok workspace
  | none => .error (.meaningless (.noWorkspace planner.horizon))

def space (planner : Planner W) (c : HistoryKind) : Except Fault (TeamSpace c) := do
  return (← planner.workspace).space c

/-- The realizations, where they were worked out. -/
def realizations? (planner : Planner W) : Option (Realizations W) :=
  planner.workspace?.bind (·.realizations?)

def stages (planner : Planner W) : Except Fault Nat := planner.horizon.stages

/-- A joint belief without mass, over all states of the process unless a size is given. -/
def blankBelief (planner : Planner W) (size? : Option Nat) : Belief W :=
  Belief.zero (size?.getD planner.process.states) planner.settings.sparseBeliefs

/-- The record of a joint action-observation history, made if it is not held yet, and the planner
that holds it. -/
def hold (planner : Planner W) (index : Nat) :
    Except Fault (JointHistory .actionObservation) × Planner W :=
  match planner.workspace? with
  | none => (.error (.meaningless (.noWorkspace planner.horizon)), planner)
  | some workspace =>
      let (outcome, actionObservation) := workspace.actionObservation.hold index
      (outcome, { planner with workspace? := some { workspace with actionObservation } })

end Planner

end TeamPlanning
