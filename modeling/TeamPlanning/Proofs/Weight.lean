import Mathlib.Algebra.Order.BigOperators.Group.List
import Mathlib.Algebra.Order.Ring.Rat
import TeamPlanning.Weight.Rational

/-! # The laws of exact weights

Over exact fractions the operations on weights are the arithmetic of the rational numbers. -/

set_option autoImplicit false

namespace TeamPlanning.Weight

@[simp] theorem zero_eq : (Weight.zero : Rat) = 0 := rfl

@[simp] theorem one_eq : (Weight.one : Rat) = 1 := rfl

@[simp] theorem positive_iff (x : Rat) : Weight.positive x = true ↔ 0 < x := by
  simp [positive, lt]

@[simp] theorem lt_iff (x y : Rat) : Weight.lt x y = true ↔ x < y := by
  simp [lt]

@[simp] theorem le_iff (x y : Rat) : Weight.le x y = true ↔ x ≤ y := by
  simp [le]

theorem strays_eq_false_iff (total : Rat) :
    Weight.strays total = false ↔ |total - 1| ≤ Weight.tolerance := by
  have distance : Weight.abs (total - Weight.one) = |total - 1| := by
    have known : Weight.abs (total - Weight.one) =
        if total - 1 < 0 then -(total - 1) else total - 1 := rfl
    rw [known]
    split
    · rename_i below
      exact (abs_of_neg below).symm
    · rename_i above
      exact (abs_of_nonneg (not_lt.mp above)).symm
  rw [strays, ← Bool.not_eq_true, lt_iff, not_lt, distance]

theorem foldl_add (weights : List Rat) (total : Rat) :
    weights.foldl (· + ·) total = total + weights.sum := by
  induction weights generalizing total with
  | nil => simp
  | cons w weights ih => rw [List.foldl_cons, ih, List.sum_cons, Rat.add_assoc]

@[simp] theorem sum_eq (weights : List Rat) : Weight.sum weights = weights.sum :=
  (foldl_add weights 0).trans (Rat.zero_add _)

theorem tolerance_pos : (0 : Rat) < Weight.tolerance := by
  decide +kernel

end TeamPlanning.Weight
