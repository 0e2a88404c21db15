import TeamPlanning.Model.Basic

/-! # Random models

A model whose rows are random distributions, made from a stream of random words of 64 bits. -/

set_option autoImplicit false

namespace TeamPlanning.Model

variable {W : Type} [Weight W]

/-- The weight below one in the upper 53 bits of a random word. -/
def uniform (draw : Nat) : W := Weight.ofNat (draw >>> 11) / Weight.ofNat (Nat.pow 2 53)

/-- A distribution over `size` outcomes from as many draws: uniform weights, lifted off zero by a
tenth and divided by their sum. -/
def distribution (draws : Nat → Nat) (start size : Nat) : List W :=
  let weights := (List.range size).map fun i =>
    uniform (draws (start + i)) + Weight.one / Weight.ofNat 10
  let total := Weight.sum weights
  weights.map (· / total)

def fillRow (table : ProbabilityTable W) (row : Nat) (distribution : List W) :
    Except Fault (ProbabilityTable W) :=
  distribution.zipIdx.foldlM (fun table (p, col) => table.set row col p) table

/-- Fills the transition row and the observation row with the given number. Every pair of rows takes
the draws that follow those of the pair before it. -/
def fillRows (draws : Nat → Nat) (model : Model W) (row : Nat) : Except Fault (Model W) := do
  let start := row * (model.states + model.jointObservations)
  let transitions ← fillRow model.transitions row (distribution draws start model.states)
  let observations ← fillRow model.observations row
    (distribution draws (start + model.states) model.jointObservations)
  return { model with transitions, observations }

/-- A random model: every row and the initial distribution are random. -/
def random (states : Nat) (alphabets : List Alphabet) (storage : Storage) (draws : Nat → Nat) :
    Except Fault (Model W) := do
  let blank ← create states alphabets storage
  let rows := blank.jointActions * states
  let model ← (List.range rows).foldlM (fillRows draws) blank
  let start := rows * (states + model.jointObservations)
  return { model with initial := distribution draws start states }

end TeamPlanning.Model
