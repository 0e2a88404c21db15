import TeamPlanning.Process
import TeamPlanning.Sparse

/-! # Beliefs

A belief is a distribution over the hidden states. An update filters it through one joint action and
one joint observation and answers how probable the observation was. An observation that cannot occur
leaves a belief without mass, so the answer is to be looked at before the belief is.

A dense belief holds one probability per state. A sparse one holds only the states whose mass
exceeds the tolerance before it is normalized, so its answers count only the mass that is kept. -/

set_option autoImplicit false

namespace TeamPlanning

/-- A distribution over states. -/
inductive Belief (W : Type) where
  | dense (entries : List W)
  | sparse (size : Nat) (entries : List (Nat × W))
  deriving DecidableEq, Repr

namespace Belief

variable {W : Type} [Weight W]

/-- The belief over `size` states that holds no mass. -/
def zero (size : Nat) (sparse : Bool) : Belief W :=
  if sparse then .sparse size [] else .dense (List.replicate size Weight.zero)

/-- Whether only some states are held. -/
def isSparse : Belief W → Bool
  | .dense _ => false
  | .sparse _ _ => true

def size : Belief W → Nat
  | .dense entries => entries.length
  | .sparse size _ => size

/-- The probability of a state; zero beyond the last. -/
def get (belief : Belief W) (state : Nat) : W :=
  match belief with
  | .dense entries => entries[state]?.getD Weight.zero
  | .sparse _ entries => (Sparse.get? entries state).getD Weight.zero

/-- Sets the probability of a state. A sparse belief drops a state that gets none. -/
def set (belief : Belief W) (state : Nat) (p : W) : Except Fault (Belief W) :=
  if state < belief.size then
    match belief with
    | .dense entries => .ok (.dense (entries.set state p))
    | .sparse size entries =>
        .ok (.sparse size
          (if Weight.eq p Weight.zero then Sparse.erase entries state
          else Sparse.insert entries state p))
  else .error (.missing (.beliefState state belief.size))

/-- The states that carry mass, with their probabilities, in the order of states. -/
def support : Belief W → List (Nat × W)
  | .dense entries =>
      (entries.zipIdx.map fun (p, state) => (state, p)).filter (!Weight.eq ·.2 Weight.zero)
  | .sparse _ entries => entries

def toDense : Belief W → List W
  | .dense entries => entries
  | .sparse size entries =>
      (List.range size).map fun state => (Sparse.get? entries state).getD Weight.zero

/-- Divides by the total if that is positive. -/
def normalize (total p : W) : W := if Weight.positive total then p / total else p

/-- Replaces the belief by the part of an unnormalized mass that it keeps, normalizes it if there is
any, and answers the total kept. -/
def adopt (belief : Belief W) (mass : List (Nat × W)) : W × Belief W :=
  match belief with
  | .dense entries =>
      let kept := (List.range entries.length).map fun state =>
        (Sparse.get? mass state).getD Weight.zero
      let total := Weight.sum kept
      (total, .dense (kept.map (normalize total)))
  | .sparse size _ =>
      let kept := mass.filter fun (state, p) => state < size && Weight.lt Weight.tolerance p
      let total := Weight.sum (kept.map (·.2))
      (total, .sparse size (kept.map fun (state, p) => (state, normalize total p)))

def mass (belief : Belief W) : W := Weight.sum (belief.support.map (·.2))

/-- Whether there are states, every entry is a probability, and the entries sum to one up to the
tolerance. -/
def validate (belief : Belief W) : Except Fault Unit :=
  if belief.size = 0 then .error (.unsound .emptyBelief)
  else
    match belief.support.find? fun (_, p) =>
        Weight.isNaN p || Weight.lt p Weight.zero || Weight.lt Weight.one p with
    | some (state, p) => .error (.unsound (.beliefEntry state (Weight.text p)))
    | none =>
        if Weight.isUnit belief.mass then .ok ()
        else .error (.unsound (.beliefSum (Weight.text belief.mass)))

def accumulate (mass : List (Nat × W)) (entry : Nat × W) : List (Nat × W) :=
  Sparse.alter mass entry.1 Weight.zero (· + entry.2)

/-- The mass that moves from one state by a joint action. With `event`, each part is weighted by the
probability of the joint observation on that way. -/
def contributions (process : DecisionProcess W) (jointAction jointObservation : Nat) (event : Bool)
    (entry : Nat × W) : List (Nat × W) :=
  (process.successors entry.1 jointAction).map fun (next, t) =>
    let moved := if event then
      process.eventObservation entry.1 jointAction next jointObservation * t else t
    (next, moved * entry.2)

/-- The unnormalized mass of every state after a joint action and a joint observation. -/
def propagate (process : DecisionProcess W) (support : List (Nat × W))
    (jointAction jointObservation : Nat) (event : Bool) : List (Nat × W) :=
  let carriers := support.filter (Weight.positive ·.2)
  let moved := (carriers.flatMap (contributions process jointAction jointObservation event)).foldl
    accumulate []
  if event then moved
  else moved.map fun (next, m) => (next, m * process.observation jointAction next jointObservation)

/-- Filters the belief through a joint action and a joint observation. Answers the probability of
the observation as well. -/
def update (belief : Belief W) (process : DecisionProcess W) (jointAction jointObservation : Nat)
    (event : Bool) : W × Belief W :=
  belief.adopt (propagate process belief.support jointAction jointObservation event)

/-- The initial distribution of a process, as far as this kind of belief keeps it. -/
def reset (belief : Belief W) (process : DecisionProcess W) : Belief W :=
  let mass := (List.range process.states).map fun state => (state, process.initial state)
  (belief.adopt (mass.filter (Weight.positive ·.2))).2

end Belief

end TeamPlanning
