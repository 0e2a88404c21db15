import TeamPlanning.Word
import TeamPlanning.Fault.Basic

/-! # A machine that halts

Not all arithmetic is checked before it is done. Where unchecked arithmetic leaves the machine words,
and where an array is made for more entries than any can hold, the machine halts. Memory up to that
capacity is taken to be there. -/

set_option autoImplicit false

namespace TeamPlanning.Machine

/-- The product; the machine halts if it is out of range. -/
def mul (a b : Nat) : Except Fault Nat :=
  if a * b < wordBound then .ok (a * b) else .error (.halted .product)

/-- The sum; the machine halts if it is out of range. -/
def add (a b : Nat) : Except Fault Nat :=
  if a + b < wordBound then .ok (a + b) else .error (.halted .sum)

/-- Makes room for an array of words; the machine halts if no array can have that many. -/
def reserve (entries : Nat) : Except Fault Unit :=
  if entries < capacity then .ok () else .error (.halted .capacity)

theorem mul_of_lt {a b : Nat} (fits : a * b < wordBound) : mul a b = .ok (a * b) := if_pos fits

theorem mul_of_le {a b : Nat} (beyond : wordBound ≤ a * b) : mul a b = .error (.halted .product) :=
  if_neg (Nat.not_lt_of_le beyond)

theorem add_of_lt {a b : Nat} (fits : a + b < wordBound) : add a b = .ok (a + b) := if_pos fits

theorem add_of_le {a b : Nat} (beyond : wordBound ≤ a + b) : add a b = .error (.halted .sum) :=
  if_neg (Nat.not_lt_of_le beyond)

theorem reserve_of_lt {entries : Nat} (stored : entries < capacity) : reserve entries = .ok () :=
  if_pos stored

theorem reserve_of_le {entries : Nat} (beyond : capacity ≤ entries) :
    reserve entries = .error (.halted .capacity) := if_neg (Nat.not_lt_of_le beyond)

end TeamPlanning.Machine
