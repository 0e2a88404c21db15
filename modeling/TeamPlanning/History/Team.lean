import TeamPlanning.History.Build
import TeamPlanning.History.Hold
import TeamPlanning.Symbol.Joint

/-! # The histories of a team

One history space per agent and one for the team, all of one kind. The record of a joint history
notes the number of every agent's own history, so the way from a joint history to the agents' own
is a look-up where the record is held, and otherwise a walk over the symbols. -/

set_option autoImplicit false

namespace TeamPlanning

/-- The histories of one kind, of every agent and of the team. -/
structure TeamSpace (c : HistoryKind) where
  alphabets : List Alphabet
  agents : List (HistorySpace c Unit)
  team : HistorySpace c (List Nat)
  deriving DecidableEq, Repr

namespace TeamSpace

variable {c : HistoryKind}

/-- Makes the note of an extended joint history: every agent's own history is extended by the
agent's part of the joint symbol. -/
def extendIndividual (agents : List (HistorySpace c Unit)) (alphabets : List Alphabet)
    (individual : List Nat) (symbol : Symbol c) : Except Fault (List Nat) := do
  let parts ← symbol.parts alphabets
  ((agents.zip individual).zip parts).mapM fun ((agent, index), part) => agent.successor index part

/-- The space of one agent: eager or in closed form. -/
def agentSpace (horizon : Nat) (eager : Bool) (alphabet : Alphabet) :
    Except Fault (HistorySpace c Unit) :=
  if eager then HistorySpace.enumerate alphabet horizon () fun _ _ _ => .ok ()
  else HistorySpace.closedForm alphabet horizon ()

/-- The histories of agents with the given alphabets that have fewer symbols than the horizon. -/
def create (alphabets : List Alphabet) (horizon : Nat) (eagerIndividual eagerJoint : Bool) :
    Except Fault (TeamSpace c) := do
  let agents ← alphabets.mapM (agentSpace horizon eagerIndividual)
  let joint ← Alphabet.joint alphabets
  let note := List.replicate alphabets.length 0
  let team ←
    if eagerJoint then
      HistorySpace.enumerate joint horizon note fun individual _ symbol =>
        extendIndividual agents alphabets individual symbol
    else HistorySpace.closedForm joint horizon note
  return { alphabets, agents, team }

def agent (space : TeamSpace c) (agent : Nat) : Except Fault (HistorySpace c Unit) :=
  match space.agents[agent]? with
  | some histories => .ok histories
  | none => .error (.missing (.agent agent space.agents.length))

/-- Whether every agent's own histories are all held. -/
def isEager (space : TeamSpace c) : Bool := space.agents.all (·.eager)

/-- Whether all joint histories are held. -/
def isJointEager (space : TeamSpace c) : Bool := space.team.eager

def count (space : TeamSpace c) (agent : Nat) : Except Fault Nat := do
  return (← space.agent agent).total

def countAt (space : TeamSpace c) (agent stage : Nat) : Except Fault Nat := do
  (← space.agent agent).layout.sizeAt stage

def firstAt (space : TeamSpace c) (agent stage : Nat) : Except Fault Nat := do
  (← space.agent agent).layout.startAt stage

def toIndividual (space : TeamSpace c) (index : Nat) : Except Fault (List Nat) :=
  match space.team.record index with
  | .ok record => .ok record.note
  | .error (.notHeld _ _) => do
      let parts ← (← space.team.symbols index).mapM (·.parts space.alphabets)
      space.agents.zipIdx.mapM fun (histories, agent) =>
        histories.indexOf (parts.filterMap (·[agent]?))
  | .error fault => .error fault

/-- The numbers of the agents' own histories in a joint history whose record is held. -/
def notedIndividual (space : TeamSpace c) (index : Nat) : Except Fault (List Nat) := do
  return (← space.team.record index).note

/-- The symbols of an agent's own history, which must be of the given stage. -/
def symbolsAt (histories : HistorySpace c Unit) (agent index stage : Nat) :
    Except Fault (List (Symbol c)) := do
  let symbols ← histories.symbols index
  if symbols.length = stage then return symbols
  else throw (.missing (.historyStage c index agent symbols.length stage))

/-- The joint history made of the agents' own histories, all of the given stage. -/
def toJoint (space : TeamSpace c) (stage : Nat) (individual : List Nat) : Except Fault Nat := do
  if individual.length ≠ space.agents.length then
    throw (.missing (.historyCount individual.length space.agents.length))
  let words ← (space.agents.zip individual).zipIdx.mapM fun ((histories, index), agent) =>
    symbolsAt histories agent index stage
  let joint ← (List.range stage).mapM fun t =>
    Symbol.ofParts (words.filterMap (·[t]?)) space.alphabets
  space.team.indexOf joint

/-- The record of a joint history, made if it is not held yet, and the space that holds it. -/
def hold (space : TeamSpace c) (index : Nat) : Except Fault (JointHistory c) × TeamSpace c :=
  let (outcome, team) := space.team.hold index fun individual _ symbol =>
    extendIndividual space.agents space.alphabets individual symbol
  (outcome, { space with team })

end TeamSpace

end TeamPlanning
