import TeamPlanning.Word
import TeamPlanning.Fault.Basic

/-! # Bounded arithmetic

Policy counts are towers of exponentials, so every product and sum that feeds a count or an index
goes through this module: a result of `wordBound` or more is a fault and never wraps. -/

set_option autoImplicit false

namespace TeamPlanning.Bounded

/-- The product, if it is in range. -/
def mul (a b : Nat) : Except Fault Nat :=
  if a * b < wordBound then .ok (a * b) else .error (.tooLarge (.product a b))

/-- The sum, if it is in range. -/
def add (a b : Nat) : Except Fault Nat :=
  if a + b < wordBound then .ok (a + b) else .error (.tooLarge (.sum a b))

/-- The power, if it is in range. Powers of zero and one are answered at once, and no larger base
has a power of 64 or more in range, so huge exponents cost nothing. -/
def pow (base exponent : Nat) : Except Fault Nat :=
  if base = 0 then .ok (if exponent = 0 then 1 else 0)
  else if base = 1 then .ok 1
  else if exponent < 64 then
    if base.pow exponent < wordBound then .ok (base.pow exponent)
    else .error (.tooLarge (.power base exponent))
  else .error (.tooLarge (.power base exponent))

/-- The product of all factors, formed from the left. -/
def prod (factors : List Nat) : Except Fault Nat :=
  factors.foldlM mul 1

/-- Sums `terms` further powers of `base` onto `total`; the first of them is `power`. The power
after the last one is never formed. -/
def addPowers (base : Nat) : (terms power total : Nat) → Except Fault Nat
  | 0, _, total => .ok total
  | 1, power, total => add total power
  | terms + 2, power, total => do
      let total ← add total power
      let power ← mul power base
      addPowers base (terms + 1) power total

/-- The sum of the first `terms` powers of `base`: how many words are shorter than `terms`. -/
def geometricSum (base terms : Nat) : Except Fault Nat :=
  addPowers base terms 1 0

theorem mul_eq_ok_iff {a b c : Nat} : mul a b = .ok c ↔ a * b < wordBound ∧ c = a * b := by
  unfold mul
  split <;> simp [*, eq_comm]

theorem add_eq_ok_iff {a b c : Nat} : add a b = .ok c ↔ a + b < wordBound ∧ c = a + b := by
  unfold add
  split <;> simp [*, eq_comm]

end TeamPlanning.Bounded
