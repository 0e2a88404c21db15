import TeamPlanning.Decimal.Shortest
import TeamPlanning.Weight.Basic

/-! # Floating point weights

Weights as binary floating point numbers of 64 bits. Sums start from negative zero, the one number
that leaves every other unchanged. Reports show the shortest decimal that reads back, without
exponent. -/

set_option autoImplicit false

namespace TeamPlanning

/-- The report of a floating point weight: `NaN`, `inf`, or the shortest decimal that reads back,
behind a minus if the sign is set. -/
def floatText (x : Float) : String :=
  if x.isNaN then "NaN"
  else
    let bits := x.toBits
    let sign := if bits >>> 63 = 1 then "-" else ""
    let binary := Decimal.Binary.ofBits bits
    sign ++
      (if x.isInf then "inf"
      else if binary.mantissa = 0 then "0"
      else binary.shortest.positional)

instance : Weight Float where
  zero := 0.0
  one := 1.0
  emptySum := -0.0
  ofNat := Float.ofNat
  lt a b := a < b
  le a b := a ≤ b
  eq a b := a == b
  abs := Float.abs
  isNaN := Float.isNaN
  text := floatText

end TeamPlanning
