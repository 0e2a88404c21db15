import TeamPlanning.Fault.Basic

/-! # Settings

What a planner works out in advance. Every kind of histories is kept eagerly, with a record of each
history, or in closed form; for the agents' own histories and for the joint ones apart. Beliefs can
be cached only where joint action-observation histories are kept eagerly. -/

set_option autoImplicit false

namespace TeamPlanning

/-- One value for every kind of histories. -/
structure PerKind (β : Type) where
  observation : β
  action : β
  actionObservation : β
  deriving DecidableEq, Repr

namespace PerKind

variable {β : Type}

def const (value : β) : PerKind β := ⟨value, value, value⟩

def get (values : PerKind β) : HistoryKind → β
  | .observation => values.observation
  | .action => values.action
  | .actionObservation => values.actionObservation

def set (values : PerKind β) (kind : HistoryKind) (value : β) : PerKind β :=
  match kind with
  | .observation => { values with observation := value }
  | .action => { values with action := value }
  | .actionObservation => { values with actionObservation := value }

end PerKind

/-- What a planner works out in advance: which histories it keeps eagerly, and whether it caches the
belief of every joint action-observation history. Beliefs may be sparse, and observations may depend
on the state left behind. -/
structure Settings where
  individual : PerKind Bool
  joint : PerKind Bool
  cachedBeliefs : Bool
  sparseBeliefs : Bool
  eventObservability : Bool
  deriving DecidableEq, Repr

namespace Settings

/-- All histories are kept eagerly; beliefs are not cached. -/
def standard : Settings where
  individual := .const true
  joint := .const true
  cachedBeliefs := false
  sparseBeliefs := false
  eventObservability := false

/-- All histories are kept eagerly, and all beliefs are cached. -/
def everything : Settings := { standard with cachedBeliefs := true }

def nothing : Settings := { standard with individual := .const false, joint := .const false }

/-- Cached beliefs need eager joint action-observation histories. -/
def validate (settings : Settings) : Except Fault Unit :=
  if settings.cachedBeliefs && !settings.joint.actionObservation then
    .error (.unsound .beliefsWithoutHistories)
  else .ok ()

private def mode (eager : Bool) : String := if eager then "eager" else "lazy"

private def modeColumn (eager : Bool) : String := if eager then "eager " else "lazy  "

private def modes (who : String) (flags : PerKind Bool) : String :=
  who ++ " OH " ++ modeColumn flags.observation ++ " AH " ++ modeColumn flags.action ++ " AOH " ++
    mode flags.actionObservation ++ "\n"

/-- Three lines: the agents' own histories, the joint histories, and the beliefs. -/
def text (settings : Settings) : String :=
  modes "individual " settings.individual ++ modes "joint      " settings.joint ++
    "beliefs     cached " ++ toString settings.cachedBeliefs ++
    " sparse " ++ toString settings.sparseBeliefs ++
    " events " ++ toString settings.eventObservability

end Settings

/-- One of the switches that make up the settings. -/
inductive Switch where
  | individual (kind : HistoryKind)
  | joint (kind : HistoryKind)
  | cachedBeliefs
  | sparseBeliefs
  | eventObservability
  deriving DecidableEq, Repr

namespace Switch

def all : List Switch :=
  [.individual .observation, .individual .action, .individual .actionObservation,
    .joint .observation, .joint .action, .joint .actionObservation,
    .cachedBeliefs, .sparseBeliefs, .eventObservability]

private def kindKey : HistoryKind → String
  | .observation => "observation"
  | .action => "action"
  | .actionObservation => "action_observation"

def key : Switch → String
  | .individual kind => "individual_" ++ kindKey kind ++ "_histories"
  | .joint kind => "joint_" ++ kindKey kind ++ "_histories"
  | .cachedBeliefs => "joint_beliefs"
  | .sparseBeliefs => "sparse_beliefs"
  | .eventObservability => "event_observability"

end Switch

namespace Settings

def get (settings : Settings) : Switch → Bool
  | .individual kind => settings.individual.get kind
  | .joint kind => settings.joint.get kind
  | .cachedBeliefs => settings.cachedBeliefs
  | .sparseBeliefs => settings.sparseBeliefs
  | .eventObservability => settings.eventObservability

def set (settings : Settings) (switch : Switch) (state : Bool) : Settings :=
  match switch with
  | .individual kind => { settings with individual := settings.individual.set kind state }
  | .joint kind => { settings with joint := settings.joint.set kind state }
  | .cachedBeliefs => { settings with cachedBeliefs := state }
  | .sparseBeliefs => { settings with sparseBeliefs := state }
  | .eventObservability => { settings with eventObservability := state }

theorem get_set (settings : Settings) (switch other : Switch) (state : Bool) :
    (settings.set switch state).get other =
      if switch = other then state else settings.get other := by
  cases switch with
  | individual c => cases other with
    | individual d => cases c <;> cases d <;> simp [get, set, PerKind.get, PerKind.set]
    | _ => cases c <;> simp [get, set, PerKind.set]
  | joint c => cases other with
    | joint d => cases c <;> cases d <;> simp [get, set, PerKind.get, PerKind.set]
    | _ => cases c <;> simp [get, set, PerKind.set]
  | _ => cases other <;> simp [get, set]

end Settings

end TeamPlanning
