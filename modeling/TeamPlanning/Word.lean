/-! # Machine words

Histories, symbols, joint symbols and policies are known by flat numbers, and so are counts of
them. They are natural numbers here; `wordBound` is the bound below which every number that the
library hands out stays. `TeamPlanning.Bounded` refuses results beyond it, and `TeamPlanning.Machine`
stops there. This module holds the arithmetic that does neither: results are taken modulo the
bound. -/

set_option autoImplicit false

namespace TeamPlanning

/-- Numbers are 64 bits wide. -/
def wordBound : Nat := Nat.pow 2 64

/-- No array has room for so many words, whatever memory there is: its size in bytes would leave the
signed numbers of 64 bits. -/
def capacity : Nat := Nat.pow 2 60

theorem capacity_pos : 0 < capacity := by decide

namespace Word

/-- The sum modulo `wordBound`. -/
def add (a b : Nat) : Nat := (a + b) % wordBound

/-- The product modulo `wordBound`. -/
def mul (a b : Nat) : Nat := (a * b) % wordBound

/-- The difference modulo `wordBound`. -/
def sub (a b : Nat) : Nat := (a + (wordBound - b % wordBound)) % wordBound

theorem add_of_lt {a b : Nat} (fits : a + b < wordBound) : add a b = a + b :=
  Nat.mod_eq_of_lt fits

theorem mul_of_lt {a b : Nat} (fits : a * b < wordBound) : mul a b = a * b :=
  Nat.mod_eq_of_lt fits

theorem sub_of_le {a b : Nat} (small : a < wordBound) (ordered : b ≤ a) : sub a b = a - b := by
  have bound : b % wordBound = b := Nat.mod_eq_of_lt (by omega)
  have total : a + (wordBound - b) = a - b + wordBound := by omega
  rw [sub, bound, total, Nat.add_mod_right]
  exact Nat.mod_eq_of_lt (by omega)

end Word

end TeamPlanning
