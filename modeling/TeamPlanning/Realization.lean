import TeamPlanning.Belief
import TeamPlanning.Symbol.Digit

/-! # Realizations

A joint action-observation history is realized if its observations come about when its joint actions
are taken. The realization of a history is the belief that it leads to, the probability of its last
observation given what came before, and the probability of all its observations.

Realizations are worked out stage by stage. The extensions of one stage, taken in the order of their
histories and of the symbols, are numbered without gaps, so a realization's place among all of them
is the number of its history. -/

set_option autoImplicit false

namespace TeamPlanning

/-- What becomes of one joint action-observation history. -/
structure Realization (W : Type) where
  belief : Belief W
  /-- The probability of the last observation, given the history before it. -/
  conditional : W
  unconditional : W

namespace Realization

variable {W : Type} [Weight W]

/-- The realization of the empty history, with a belief of the given kind. -/
def start (process : DecisionProcess W) (sparse : Bool) : Realization W where
  belief := (Belief.zero process.states sparse).reset process
  conditional := Weight.one
  unconditional := Weight.one

/-- The realization of the extension by a joint action and a joint observation. -/
def extend (process : DecisionProcess W) (event : Bool) (realization : Realization W) :
    Symbol .actionObservation → Realization W
  | .actionObservation jointAction jointObservation =>
      let (conditional, belief) :=
        realization.belief.update process jointAction jointObservation event
      { belief, conditional, unconditional := realization.unconditional * conditional }

/-- The realizations of the extensions by every symbol, in the order of symbols. -/
def extensions (process : DecisionProcess W) (event : Bool) (alphabet : Alphabet) (base : Nat)
    (realization : Realization W) : List (Realization W) :=
  (List.range base).map fun digit =>
    realization.extend process event (Symbol.ofDigit .actionObservation digit alphabet)

/-- The realizations of one stage and of the `further` stages after it. -/
def stages (process : DecisionProcess W) (event : Bool) (alphabet : Alphabet) (base : Nat) :
    (further : Nat) → List (Realization W) → List (Realization W)
  | 0, level => level
  | further + 1, level =>
      level ++ stages process event alphabet base further
        (level.flatMap (extensions process event alphabet base))

end Realization

/-- The realizations of all joint action-observation histories, found by the numbers of histories.
Beliefs are kept on request only. -/
structure Realizations (W : Type) where
  conditional : Array W
  unconditional : Array W
  beliefs? : Option (Array (Belief W))

/-- Collects realizations in the order of their histories. -/
def Realizations.ofList {W : Type} (keepBeliefs : Bool) (realizations : List (Realization W)) :
    Realizations W where
  conditional := (realizations.map (·.conditional)).toArray
  unconditional := (realizations.map (·.unconditional)).toArray
  beliefs? := if keepBeliefs then some (realizations.map (·.belief)).toArray else none

end TeamPlanning
