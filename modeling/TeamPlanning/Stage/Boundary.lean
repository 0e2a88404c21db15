/-! # Finding a boundary

How many leading positions satisfy a test that, once it fails, keeps failing. -/

set_option autoImplicit false

namespace TeamPlanning

/-- Halves the window of `size` positions from `start` on until one position is left, keeping the
half whose first position satisfies the test whenever the upper one does. -/
def boundaryFrom (test : Nat → Bool) (start size : Nat) : Nat :=
  if size ≤ 1 then
    if test start then start + 1 else start
  else
    let middle := start + size / 2
    boundaryFrom test (if test middle then middle else start) (size - size / 2)
termination_by size

/-- How many of the positions below `size` come before the first that fails the test. The answer
is meaningful if no position after that one satisfies the test. -/
def boundary (test : Nat → Bool) (size : Nat) : Nat :=
  if size = 0 then 0 else boundaryFrom test 0 size

end TeamPlanning
