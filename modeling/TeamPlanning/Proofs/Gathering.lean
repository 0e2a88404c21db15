import Mathlib.Algebra.BigOperators.Group.Finset.Piecewise
import Mathlib.Algebra.BigOperators.Group.List.Basic
import TeamPlanning.Belief
import TeamPlanning.Proofs.Weight

/-! # Gathering mass by key

What a list of keyed weights holds under one key, and what a sparse row holds once the list was
accumulated into it. -/

set_option autoImplicit false

namespace TeamPlanning

open scoped BigOperators

namespace Sparse

theorem ascending_listing {β : Type} (size : Nat) (entry : Nat → β) :
    Ascending ((List.range size).map fun key => (key, entry key)) := by
  rw [Ascending, List.pairwise_map]
  exact List.pairwise_lt_range

/-- All that is listed under a key. -/
def gathered (entries : List (Nat × Rat)) (key : Nat) : Rat :=
  (entries.map fun entry => if entry.1 = key then entry.2 else 0).sum

@[simp] theorem gathered_nil (key : Nat) : gathered [] key = 0 := rfl

@[simp] theorem gathered_cons (entry : Nat × Rat) (entries : List (Nat × Rat)) (key : Nat) :
    gathered (entry :: entries) key =
      (if entry.1 = key then entry.2 else 0) + gathered entries key := by
  simp [gathered]

theorem gathered_append (first second : List (Nat × Rat)) (key : Nat) :
    gathered (first ++ second) key = gathered first key + gathered second key := by
  simp [gathered]

theorem gathered_flatMap {α : Type} (sources : List α) (entriesOf : α → List (Nat × Rat))
    (key : Nat) :
    gathered (sources.flatMap entriesOf) key =
      (sources.map fun source => gathered (entriesOf source) key).sum := by
  induction sources with
  | nil => rfl
  | cons source sources ih =>
      rw [List.flatMap_cons, gathered_append, ih, List.map_cons, List.sum_cons]

theorem gathered_map_mul (entries : List (Nat × Rat)) (factor : Nat → Rat) (key : Nat) :
    gathered (entries.map fun entry => (entry.1, factor entry.1 * entry.2)) key =
      factor key * gathered entries key := by
  induction entries with
  | nil => simp
  | cons entry entries ih =>
      by_cases here : entry.1 = key
      · simp [ih, here, mul_add]
      · simp [ih, here]

theorem gathered_eq_zero {entries : List (Nat × Rat)} {key : Nat}
    (absent : ∀ entry ∈ entries, entry.1 ≠ key) : gathered entries key = 0 := by
  induction entries with
  | nil => rfl
  | cons entry entries ih =>
      obtain ⟨first, others⟩ := List.forall_mem_cons.mp absent
      rw [gathered_cons, if_neg first, ih others]
      exact Rat.zero_add 0

theorem sum_gathered {entries : List (Nat × Rat)} {keys : Nat}
    (below : ∀ entry ∈ entries, entry.1 < keys) :
    ∑ key ∈ Finset.range keys, gathered entries key = (entries.map (·.2)).sum := by
  induction entries with
  | nil => exact Finset.sum_const_zero
  | cons entry entries ih =>
      obtain ⟨first, others⟩ := List.forall_mem_cons.mp below
      simp only [gathered_cons, List.map_cons, List.sum_cons]
      rw [Finset.sum_add_distrib, ih others, Finset.sum_ite_eq, if_pos (Finset.mem_range.mpr first)]

/-- In a row without repeated keys the entry found is all there is. -/
theorem gathered_of_ascending {row : List (Nat × Rat)} (sorted : Ascending row) (key : Nat) :
    gathered row key = (get? row key).getD 0 := by
  induction row with
  | nil => rfl
  | cons entry row ih =>
      obtain ⟨above, sorted⟩ := List.pairwise_cons.mp sorted
      rw [gathered_cons, get?]
      by_cases here : entry.1 = key
      · have rest : gathered row key = 0 :=
          gathered_eq_zero fun other member => by
            have later := above other member
            omega
        rw [if_pos here, if_pos here, rest]
        exact Rat.add_zero _
      · rw [if_neg here, if_neg here, ih sorted]
        exact Rat.zero_add _

theorem get?_map_mul (row : List (Nat × Rat)) (factor : Nat → Rat) (key : Nat) :
    (get? (row.map fun entry => (entry.1, entry.2 * factor entry.1)) key).getD 0 =
      (get? row key).getD 0 * factor key := by
  induction row with
  | nil => simp [get?]
  | cons entry row ih =>
      rw [List.map_cons, get?, get?]
      by_cases here : entry.1 = key
      · rw [if_pos here, if_pos here, here]
        rfl
      · rw [if_neg here, if_neg here, ih]

end Sparse

theorem Belief.get?_foldl_accumulate (entries mass : List (Nat × Rat)) (key : Nat) :
    (Sparse.get? (entries.foldl Belief.accumulate mass) key).getD 0 =
      (Sparse.get? mass key).getD 0 + Sparse.gathered entries key := by
  induction entries generalizing mass with
  | nil => exact (Rat.add_zero _).symm
  | cons entry entries ih =>
      rw [List.foldl_cons, ih, accumulate, Sparse.alter, Sparse.get?_insert, Sparse.gathered_cons]
      by_cases here : entry.1 = key
      · rw [if_pos here, if_pos here, here, ← Rat.add_assoc]
        rfl
      · rw [if_neg here, if_neg here, Rat.zero_add]

end TeamPlanning
