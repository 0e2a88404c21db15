import TeamPlanning.Planner.History
import TeamPlanning.Policy.Basic

/-! # Realization probabilities

How probable the observations of a joint action-observation history are, given its actions or given
a joint policy that chooses them, and which belief they lead to. Answers start from the initial
distribution or from a predecessor: a shorter joint history, with or without a belief to start from.
Where beliefs are cached they are looked up, otherwise they are worked out along the history. -/

set_option autoImplicit false

namespace TeamPlanning.Planner

variable {W : Type} [Weight W]

/-- The cached belief and probability of a joint action-observation history, where beliefs are
cached at all. -/
def cachedRealization (planner : Planner W) (index : Nat) : Except Fault (Option (Belief W × W)) :=
  match planner.realizations? with
  | none => .ok none
  | some realizations =>
      match realizations.beliefs? with
      | none => .ok none
      | some beliefs =>
          match beliefs[index]?, realizations.unconditional[index]? with
          | some belief, some p => .ok (some (belief, p))
          | _, _ => .error (.missing (.belief index beliefs.size))

def replay (planner : Planner W) (belief : Belief W) (symbols : List (Symbol .actionObservation)) :
    Belief W :=
  symbols.foldl (fun belief => fun
    | .actionObservation jointAction jointObservation =>
        (belief.update planner.process jointAction jointObservation
          planner.settings.eventObservability).2) belief

/-- The probability with which a policy takes a joint action after joint history `current`, in which
`seen` was observed. Without a policy the actions are given and have probability one. -/
def choiceProbability (planner : Planner W) (policy? : Option (JointPolicy W)) (seen : List Nat)
    (current jointAction : Nat) : Except Fault W :=
  match policy? with
  | none => .ok Weight.one
  | some policy => do
      let element ← match policy.domain with
        | .observationHistory => planner.jointIndexOf (seen.map Symbol.observation)
        | .actionObservationHistory => .ok current
        | .type => .error (.meaningless .typeRealization)
      policy.probability element jointAction

/-- Filters a belief through the given symbols and multiplies up the probability, starting at joint
history `current`, in which `seen` was observed. -/
def walk (planner : Planner W) (policy? : Option (JointPolicy W)) :
    List (Symbol .actionObservation) → (seen : List Nat) → (current : Nat) → Belief W → W →
    Except Fault (Belief W × W)
  | [], _, _, belief, p => .ok (belief, p)
  | .actionObservation jointAction jointObservation :: symbols, seen, current, belief, p => do
      let (conditional, belief) := belief.update planner.process jointAction jointObservation
        planner.settings.eventObservability
      let choice ← planner.choiceProbability policy? seen current jointAction
      let next ← (← planner.space .actionObservation).team.successor current
        (.actionObservation jointAction jointObservation)
      walk planner policy? symbols (seen ++ [jointObservation]) next belief
        (p * (conditional * choice))

/-- Walks from joint history `predecessor`, whose length is given, on to the end of `symbols`. -/
def walkFrom (planner : Planner W) (policy? : Option (JointPolicy W)) (predecessor length : Nat)
    (symbols : List (Symbol .actionObservation)) (belief : Belief W) :
    Except Fault (Belief W × W) :=
  planner.walk policy? (symbols.drop length) (Symbol.observations (symbols.take length)) predecessor
    belief Weight.one

/-- The quotient of two probabilities; zero if the second is. -/
def ratio (p given : W) : W := if Weight.positive given then p / given else Weight.zero

/-- The belief reached by a joint history and its probability, given a predecessor that is not the
empty history and from which no belief starts. Where beliefs are cached, the probability is the
ratio of the two cached ones, whatever the policy. -/
def realizeAfter (planner : Planner W) (index predecessor length : Nat)
    (symbols : List (Symbol .actionObservation)) (policy? : Option (JointPolicy W)) :
    Except Fault (Belief W × W) := do
  match ← planner.cachedRealization index with
  | some (belief, p) =>
      let given := (planner.realizations?.bind (·.unconditional[predecessor]?)).getD Weight.zero
      return (belief, ratio p given)
  | none =>
      let initial := (planner.blankBelief none).reset planner.process
      planner.walkFrom policy? predecessor length symbols
        (planner.replay initial (symbols.take length))

/-- Whether the first symbols are those of joint history `predecessor`, and not all of them. -/
def extendsHistory (planner : Planner W) (symbols : List (Symbol .actionObservation))
    (predecessor length : Nat) : Except Fault Bool := do
  if symbols.length ≤ length then return false
  return (← planner.jointSymbols .actionObservation predecessor) == symbols.take length

/-- The belief reached by a joint history and its probability, worked out for the given predecessor,
belief to start from and policy. -/
def realizeFrom (planner : Planner W) (index predecessor : Nat) (start? : Option (Belief W))
    (policy? : Option (JointPolicy W)) : Except Fault (Belief W × W) := do
  let space ← planner.space .actionObservation
  let _ ← space.team.stageOf index
  let length ← space.team.stageOf predecessor
  let symbols ← planner.jointSymbols .actionObservation index
  let blank := planner.blankBelief none
  if predecessor ≠ 0 then
    if !(← planner.extendsHistory symbols predecessor length) then
      return (blank, Weight.zero)
  match start? with
  | some start => planner.walkFrom policy? predecessor length symbols start
  | none =>
      if predecessor = 0 then
        planner.walkFrom policy? predecessor length symbols (blank.reset planner.process)
      else planner.realizeAfter index predecessor length symbols policy?

/-- The belief reached by joint action-observation history `index`, and the probability of its
observations after those of `predecessor`. Without a belief to start from, history 0 starts from the
initial distribution, and the belief of any other predecessor is worked out. With a policy, every
further step is weighted by the probability of the joint action taken. A predecessor other than 0
that `index` does not properly extend has probability zero and leaves no mass. -/
def realize (planner : Planner W) (index predecessor : Nat) (start? : Option (Belief W))
    (policy? : Option (JointPolicy W)) : Except Fault (Belief W × W) := do
  if predecessor = 0 ∧ start?.isNone ∧ policy?.isNone then
    match ← planner.cachedRealization index with
    | some cached => return cached
    | none => planner.realizeFrom index 0 none none
  else planner.realizeFrom index predecessor start? policy?

/-- The belief reached by a joint action-observation history from the initial distribution. -/
def jointBelief (planner : Planner W) (index : Nat) : Except Fault (Belief W) := do
  match ← planner.cachedRealization index with
  | some (belief, _) => return belief
  | none => return (← planner.realize index 0 none none).1

/-- The probability part of `realize`. -/
def probability (planner : Planner W) (index predecessor : Nat) (start? : Option (Belief W))
    (policy? : Option (JointPolicy W)) : Except Fault W := do
  return (← planner.realize index predecessor start? policy?).2

/-- The probability of the last observation of a joint action-observation history given what came
before it; one for the empty history. -/
def lastProbability (planner : Planner W) (index : Nat) : Except Fault W := do
  match planner.realizations? with
  | some realizations =>
      match realizations.conditional[index]? with
      | some p => return p
      | none => throw (.missing (.realization index))
  | none =>
      let symbols ← planner.jointSymbols .actionObservation index
      if symbols.isEmpty then return Weight.one
      let predecessor ← planner.jointIndexOf symbols.dropLast
      planner.probability index predecessor none none

end TeamPlanning.Planner
