/-! # Weights

Probabilities and the masses of unnormalized beliefs are weights. The library computes with any type
of weights that has the operations below; it runs on binary floating point numbers, and its laws are
stated over exact fractions. No law is part of the class: floating point numbers obey hardly any. -/

set_option autoImplicit false

namespace TeamPlanning

/-- The operations on probabilities. Comparisons answer yes or no; all of them say no to a weight
that is not a number. -/
class Weight (W : Type) extends Add W, Sub W, Mul W, Div W where
  zero : W
  one : W
  /-- The sum of no weights, to which further weights are added from the left. -/
  emptySum : W
  ofNat : Nat → W
  lt : W → W → Bool
  le : W → W → Bool
  eq : W → W → Bool
  abs : W → W
  isNaN : W → Bool
  text : W → String

namespace Weight

variable {W : Type} [Weight W]

def sum (weights : List W) : W := weights.foldl (· + ·) emptySum

/-- How far sums may stray from one, and the mass up to which sparse beliefs drop a state. -/
def tolerance : W := (one : W) / ofNat 1000000

/-- Whether a weight is above zero. -/
def positive (w : W) : Bool := lt zero w

/-- Whether a weight lies between zero and one. -/
def isProbability (w : W) : Bool := le zero w && le w one

/-- Whether a sum strays from one by more than the tolerance. One that is not a number does not. -/
def strays (sum : W) : Bool := lt tolerance (abs (sum - one))

/-- Whether a sum is one up to the tolerance. One that is not a number is not. -/
def isUnit (sum : W) : Bool := le (abs (sum - one)) tolerance

end Weight

end TeamPlanning
