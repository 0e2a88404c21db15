import TeamPlanning.ProbabilityTable
import TeamPlanning.Process

/-! # Models

A decision process written down in tables. Transition rows are keyed by joint action and state, with
one column per next state; observation rows by joint action and the state reached, with one column
per joint observation. Once an observation is written for a state left behind, the model is driven
by events: observations then come from a table whose rows are keyed by that state as well. -/

set_option autoImplicit false

namespace TeamPlanning

/-- A decision process held in tables. -/
structure Model (W : Type) where
  states : Nat
  alphabets : List Alphabet
  jointActions : Nat
  jointObservations : Nat
  transitions : ProbabilityTable W
  observations : ProbabilityTable W
  events : Option (ProbabilityTable W)
  initial : List W

namespace Model

variable {W : Type} [Weight W]

/-- A model with blank tables that may start in every state alike. Room for the tables and for the
initial distribution is taken to be there. -/
def create (states : Nat) (alphabets : List Alphabet) (storage : Storage) :
    Except Fault (Model W) := do
  if states = 0 ∨ alphabets = [] then
    throw (.unsound (.emptyModel states alphabets.length))
  let joint ← Alphabet.joint alphabets
  let rows ← Bounded.prod [joint.actions, states]
  let transitions ← ProbabilityTable.create storage rows states
  let observations ← ProbabilityTable.create storage rows joint.observations
  return {
    states, alphabets, transitions, observations
    jointActions := joint.actions
    jointObservations := joint.observations
    events := none
    initial := List.replicate states (Weight.one / Weight.ofNat states) }

def storage (model : Model W) : Storage := model.transitions.storage

/-- Whether observations depend on the state left behind. -/
def isEventDriven (model : Model W) : Bool := model.events.isSome

def row (model : Model W) (jointAction state : Nat) : Except Fault Nat :=
  if jointAction < model.jointActions ∧ state < model.states then
    .ok (Word.add (Word.mul jointAction model.states) state)
  else .error (.missing (.jointAction jointAction state))

/-- The row of a state left behind, a joint action and the state reached. -/
def eventRow (model : Model W) (state jointAction next : Nat) : Except Fault Nat :=
  if state < model.states then do
    let row ← model.row jointAction next
    return Word.add (Word.mul (Word.mul state model.jointActions) model.states) row
  else .error (.missing (.state state))

def writeTransition (model : Model W) (state jointAction next : Nat) (p : W) :
    Except Fault (Model W) := do
  let row ← model.row jointAction state
  return { model with transitions := ← model.transitions.set row next p }

def writeObservation (model : Model W) (jointAction next jointObservation : Nat) (p : W) :
    Except Fault (Model W) := do
  let row ← model.row jointAction next
  return { model with observations := ← model.observations.set row jointObservation p }

/-- The table of observations by event, made if there is none yet, and the row of an event. -/
def openEvents (model : Model W) (state jointAction next : Nat) :
    Except Fault (ProbabilityTable W × Nat) := do
  let rows ← Bounded.prod [model.states, model.jointActions, model.states]
  let row ← model.eventRow state jointAction next
  match model.events with
  | some events => return (events, row)
  | none => return (← ProbabilityTable.create model.storage rows model.jointObservations, row)

/-- Writes the probability of an observation by event. The first such write to an existing row makes
the model driven by events, and it stays so even if the cell or the probability is then refused. -/
def writeEventObservation (model : Model W) (state jointAction next jointObservation : Nat)
    (p : W) : Except Fault Unit × Model W :=
  match model.openEvents state jointAction next with
  | .error fault => (.error fault, model)
  | .ok (events, row) =>
      match events.set row jointObservation p with
      | .error fault => (.error fault, { model with events := some events })
      | .ok events => (.ok (), { model with events := some events })

def writeInitial (model : Model W) (distribution : List W) : Except Fault (Model W) :=
  if distribution.length = model.states then .ok { model with initial := distribution }
  else .error (.unsound (.initialLength distribution.length model.states))

/-- Whether every row in use and the initial distribution sum to one, up to the tolerance, and no
initial probability is negative. -/
def validate (model : Model W) : Except Fault Unit := do
  model.transitions.validate
  (model.events.getD model.observations).validate
  let sum := Weight.sum model.initial
  if Weight.strays sum || model.initial.any (Weight.lt · Weight.zero) then
    throw (.unsound (.initialSum (Weight.text sum)))

/-- The probability of a transition; zero where there is none. -/
def transition (model : Model W) (state jointAction next : Nat) : W :=
  match model.row jointAction state with
  | .ok row => model.transitions.cell row next
  | .error _ => Weight.zero

/-- The probability of an observation; zero where there is none. -/
def observation (model : Model W) (jointAction next jointObservation : Nat) : W :=
  match model.row jointAction next with
  | .ok row => model.observations.cell row jointObservation
  | .error _ => Weight.zero

/-- The probability of an observation by event; that of the observation alone before the model is
driven by events. -/
def eventObservation (model : Model W) (state jointAction next jointObservation : Nat) : W :=
  match model.events with
  | none => model.observation jointAction next jointObservation
  | some events =>
      match model.eventRow state jointAction next with
      | .ok row => events.cell row jointObservation
      | .error _ => Weight.zero

theorem eventObservation_of_plain {model : Model W} (plain : model.isEventDriven = false)
    (state jointAction next jointObservation : Nat) :
    model.eventObservation state jointAction next jointObservation =
      model.observation jointAction next jointObservation := by
  rw [isEventDriven, Option.isSome_eq_false_iff, Option.isNone_iff_eq_none] at plain
  rw [eventObservation, plain]

def successors (model : Model W) (state jointAction : Nat) : List (Nat × W) :=
  match model.row jointAction state with
  | .ok row => model.transitions.row row
  | .error _ => []

/-- What the model says about the process apart from its sparsity and events. -/
def dynamics (model : Model W) : Dynamics W where
  agents := model.alphabets.length
  states := model.states
  actions agent := (model.alphabets[agent]?.map (·.actions)).getD 0
  observations agent := (model.alphabets[agent]?.map (·.observations)).getD 0
  transition := model.transition
  observation := model.observation
  initial state := model.initial[state]?.getD Weight.zero

def process (model : Model W) : DecisionProcess W :=
  { model.dynamics.process with
    eventObservation := model.eventObservation
    successors := model.successors
    alphabets := model.alphabets }

end Model

end TeamPlanning
