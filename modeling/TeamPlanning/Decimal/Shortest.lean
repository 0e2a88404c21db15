/-! # Shortest decimals

The decimal with the fewest digits that lies among the reals that round to a given binary number,
found by exact arithmetic. Of two such decimals on the same grid the nearer one is taken, and of two
equally near ones the larger. -/

set_option autoImplicit false

namespace TeamPlanning.Decimal

/-- The positive number `mantissa * 2 ^ exponent` of a binary format. Below a power of two the gap
to the next smaller number of the format is half as wide as the gap above. -/
structure Binary where
  mantissa : Nat
  exponent : Int
  narrowBelow : Bool
  deriving DecidableEq, Repr

/-- The finite number with the given 64 bits, its sign ignored. -/
def Binary.ofBits (bits : UInt64) : Binary :=
  let biased := ((bits >>> 52) &&& 0x7FF).toNat
  let fraction := (bits &&& 0xFFFFFFFFFFFFF).toNat
  if biased = 0 then ⟨fraction, -1074, false⟩
  else ⟨Nat.pow 2 52 + fraction, (biased : Int) - 1075, fraction == 0 && 1 < biased⟩

/-- The number `digits * 10 ^ exponent`. -/
structure Scaled where
  digits : Nat
  exponent : Int
  deriving DecidableEq, Repr

/-- Compares `digits * 10 ^ scale` with `mantissa * 2 ^ exponent`. -/
def compareScaled (digits : Nat) (scale : Int) (mantissa : Nat) (exponent : Int) : Ordering :=
  compare (digits * Nat.pow 10 scale.toNat * Nat.pow 2 (-exponent).toNat)
    (mantissa * Nat.pow 2 exponent.toNat * Nat.pow 10 (-scale).toNat)

/-- Whether a decimal rounds to the binary number: it lies between the points halfway to the two
neighbours, which themselves round to it exactly when the mantissa is even. -/
def Binary.readsBack (x : Binary) (d : Scaled) : Bool :=
  let lower := if x.narrowBelow then 4 * x.mantissa - 1 else 4 * x.mantissa - 2
  let upper := 4 * x.mantissa + 2
  let closed := x.mantissa % 2 == 0
  let low := compareScaled d.digits d.exponent lower (x.exponent - 2)
  let high := compareScaled d.digits d.exponent upper (x.exponent - 2)
  (low == .gt || (closed && low == .eq)) && (high == .lt || (closed && high == .eq))

/-- The least power of ten above the number, from an estimate that is at most two off. -/
def Binary.magnitude (x : Binary) : Int :=
  let estimate := (x.mantissa.log2 + x.exponent) * 30103 / 100000
  let candidates := [estimate - 1, estimate, estimate + 1, estimate + 2]
  (candidates.find? fun k => compareScaled 1 k x.mantissa x.exponent == .gt).getD (estimate + 3)

/-- The decimal that reads back among the two neighbours of the number on the grid of multiples of
`10 ^ scale`. -/
def Binary.onGrid? (x : Binary) (scale : Int) : Option Scaled :=
  let numerator := x.mantissa * Nat.pow 2 x.exponent.toNat * Nat.pow 10 (-scale).toNat
  let denominator := Nat.pow 2 (-x.exponent).toNat * Nat.pow 10 scale.toNat
  let below : Scaled := ⟨numerator / denominator, scale⟩
  let above : Scaled := ⟨numerator / denominator + 1, scale⟩
  let upperIsNearer := (2 * below.digits + 1) * denominator ≤ 2 * numerator
  match x.readsBack below, x.readsBack above with
  | true, true => some (if upperIsNearer then above else below)
  | true, false => some below
  | false, true => some above
  | false, false => none

/-- Moves trailing zeros of the digits into the exponent; at most `bound` of them. -/
def stripZeros : Nat → Scaled → Scaled
  | 0, d => d
  | bound + 1, d =>
      if d.digits ≠ 0 ∧ d.digits % 10 = 0 then stripZeros bound ⟨d.digits / 10, d.exponent + 1⟩
      else d

/-- The shortest decimal that reads back. Seventeen digits always suffice; were that not so, the
exact value of the number would be the answer. -/
def Binary.shortest (x : Binary) : Scaled :=
  let magnitude := x.magnitude
  let exact : Scaled :=
    ⟨x.mantissa * Nat.pow 2 x.exponent.toNat * Nat.pow 5 (-x.exponent).toNat, min x.exponent 0⟩
  let found := (List.range 17).findSome? fun (extra : Nat) => x.onGrid? (magnitude - 1 - extra)
  stripZeros 20 (found.getD exact)

/-- Writes a decimal without exponent: digits, then zeros up to the point; or the point among or in
front of the digits. -/
def Scaled.positional (d : Scaled) : String :=
  let digits := toString d.digits
  if 0 ≤ d.exponent then digits ++ String.ofList (List.replicate d.exponent.toNat '0')
  else
    let places := (-d.exponent).toNat
    let padded := (List.replicate (places + 1 - digits.length) '0') ++ digits.toList
    let whole := padded.length - places
    String.ofList (padded.take whole ++ '.' :: padded.drop whole)

example : (Scaled.mk 12 3).positional = "12000" := by decide +kernel
example : (Scaled.mk 12 (-1)).positional = "1.2" := by decide +kernel
example : (Scaled.mk 12 (-4)).positional = "0.0012" := by decide +kernel

/-- The bits of one tenth. -/
example : (Binary.ofBits 0x3FB999999999999A).shortest = ⟨1, -1⟩ := by decide +kernel

/-- The least positive number has one digit: both 4 and 5 read back, and 5 is nearer. -/
example : (Binary.ofBits 1).shortest = ⟨5, -324⟩ := by decide +kernel

/-- A quarter above 2 to the 50: the decimals that end in 2 and 3 are equally near. -/
example : (Binary.ofBits 0x4310000000000001).shortest = ⟨11258999068426243, -1⟩ := by
  decide +kernel

end TeamPlanning.Decimal
