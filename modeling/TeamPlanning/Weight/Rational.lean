import TeamPlanning.Weight.Basic

/-! # Exact weights

Weights as exact fractions, over which the laws of beliefs and realizations are stated. Every
fraction is a number, and sums start from zero. -/

set_option autoImplicit false

namespace TeamPlanning

/-- The report of a fraction: its numerator, and its denominator unless that is one. -/
def fractionText (x : Rat) : String :=
  if x.den = 1 then toString x.num else toString x.num ++ "/" ++ toString x.den

instance : Weight Rat where
  zero := 0
  one := 1
  emptySum := 0
  ofNat n := n
  lt a b := a < b
  le a b := a ≤ b
  eq a b := a == b
  abs x := if x < 0 then -x else x
  isNaN _ := false
  text := fractionText

end TeamPlanning
