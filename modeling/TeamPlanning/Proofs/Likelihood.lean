import Mathlib.Tactic.Ring
import TeamPlanning.Proofs.Realization
import TeamPlanning.Proofs.Weight

/-! # Likelihoods

How probable the observations of a word are when its actions are taken from a belief on. An
observation that cannot occur drains the belief, and a drained belief lets no observation occur. -/

set_option autoImplicit false

namespace TeamPlanning

/-- No weight that beliefs are filtered with is negative. -/
structure DecisionProcess.Nonnegative (process : DecisionProcess Rat) : Prop where
  successors : ∀ state jointAction, ∀ entry ∈ process.successors state jointAction, 0 ≤ entry.2
  observation : ∀ jointAction next jointObservation,
    0 ≤ process.observation jointAction next jointObservation
  eventObservation : ∀ state jointAction next jointObservation,
    0 ≤ process.eventObservation state jointAction next jointObservation

namespace Belief

variable {process : DecisionProcess Rat} {event : Bool} {belief : Belief Rat}

/-- The belief after the symbols of a word. -/
def after (process : DecisionProcess Rat) (event : Bool) :
    Belief Rat → List (Symbol .actionObservation) → Belief Rat
  | belief, [] => belief
  | belief, .actionObservation jointAction jointObservation :: word =>
      after process event (belief.update process jointAction jointObservation event).2 word

/-- The probability of the observations of a word, given its actions. -/
def likelihood (process : DecisionProcess Rat) (event : Bool) :
    Belief Rat → List (Symbol .actionObservation) → Rat
  | _, [] => 1
  | belief, .actionObservation jointAction jointObservation :: word =>
      (belief.update process jointAction jointObservation event).1 *
        likelihood process event (belief.update process jointAction jointObservation event).2 word

theorem along_eq (realization : Realization Rat) (word : List (Symbol .actionObservation)) :
    (realization.along process event word).belief = realization.belief.after process event word ∧
      (realization.along process event word).unconditional =
        realization.unconditional * realization.belief.likelihood process event word := by
  induction word generalizing realization with
  | nil => exact ⟨rfl, (Rat.mul_one _).symm⟩
  | cons symbol word ih =>
      cases symbol with
      | actionObservation jointAction jointObservation =>
          obtain ⟨belief, unconditional⟩ :=
            ih (realization.extend process event (.actionObservation jointAction jointObservation))
          refine ⟨belief, unconditional.trans ?_⟩
          exact Rat.mul_assoc _ _ _

/-! ## Drained beliefs -/

/-- No state carries mass on. -/
def Drained (belief : Belief Rat) : Prop := belief.support.filter (Weight.positive ·.2) = []

theorem drained_of_zeros {entries : List Rat} (zeros : ∀ p ∈ entries, p = 0) :
    (Belief.dense entries).Drained := by
  refine List.filter_eq_nil_iff.mpr fun entry member => ?_
  obtain ⟨pair, listed, rfl⟩ := List.mem_map.mp (List.mem_of_mem_filter member)
  simp [zeros pair.1 (List.fst_mem_of_mem_zipIdx listed)]

theorem get?_nonneg {mass : List (Nat × Rat)} (nonneg : ∀ entry ∈ mass, 0 ≤ entry.2)
    (state : Nat) : 0 ≤ (Sparse.get? mass state).getD (Weight.zero : Rat) := by
  induction mass with
  | nil => exact le_refl 0
  | cons entry mass ih =>
      obtain ⟨first, others⟩ := List.forall_mem_cons.mp nonneg
      rw [Sparse.get?]
      split
      · exact first
      · exact ih others

theorem adopt_zero {mass : List (Nat × Rat)} (nonneg : ∀ entry ∈ mass, 0 ≤ entry.2)
    (nothing : (belief.adopt mass).1 = 0) : (belief.adopt mass).2.Drained := by
  cases belief with
  | dense entries =>
      simp only [adopt, Weight.sum_eq] at nothing ⊢
      have zeros := fun p => List.all_zero_of_le_zero_le_of_sum_eq_zero (x := p) (by
        intro p member
        obtain ⟨state, _, rfl⟩ := List.mem_map.mp member
        exact get?_nonneg nonneg state) nothing
      refine drained_of_zeros fun p member => ?_
      obtain ⟨kept, listed, rfl⟩ := List.mem_map.mp member
      rw [zeros kept listed, nothing, normalize]
      simp
  | sparse size entries =>
      simp only [adopt, Weight.sum_eq] at nothing ⊢
      generalize kept_eq : mass.filter (fun entry => decide (entry.1 < size) &&
        Weight.lt Weight.tolerance entry.2) = kept at nothing ⊢
      have none : kept = [] := by
        cases kept with
        | nil => rfl
        | cons entry kept =>
            have heavy : ∀ other ∈ entry :: kept, (0 : Rat) < other.2 := by
              intro other member
              rw [← kept_eq] at member
              have kept := (List.mem_filter.mp member).2
              simp only [Bool.and_eq_true, Weight.lt_iff] at kept
              exact lt_trans Weight.tolerance_pos kept.2
            have zeros := List.all_zero_of_le_zero_le_of_sum_eq_zero (x := entry.2) (by
              intro p member
              obtain ⟨other, listed, rfl⟩ := List.mem_map.mp member
              exact le_of_lt (heavy other listed)) nothing (by simp)
            exact absurd zeros (ne_of_gt (heavy entry List.mem_cons_self))
      rw [none]
      rfl

theorem foldl_accumulate_nonneg {entries mass : List (Nat × Rat)}
    (added : ∀ entry ∈ entries, 0 ≤ entry.2) (nonneg : ∀ entry ∈ mass, 0 ≤ entry.2) :
    ∀ entry ∈ entries.foldl accumulate mass, 0 ≤ entry.2 := by
  induction entries generalizing mass with
  | nil => exact nonneg
  | cons entry entries ih =>
      obtain ⟨first, others⟩ := List.forall_mem_cons.mp added
      refine ih others fun other member => ?_
      rcases Sparse.mem_insert member with rfl | member
      · exact add_nonneg (get?_nonneg nonneg entry.1) first
      · exact nonneg other member

theorem propagate_nonneg (regular : process.Nonnegative) (support : List (Nat × Rat))
    (jointAction jointObservation : Nat) :
    ∀ entry ∈ propagate process support jointAction jointObservation event, 0 ≤ entry.2 := by
  have contributed : ∀ entry ∈ (support.filter (Weight.positive ·.2)).flatMap
      (contributions process jointAction jointObservation event), 0 ≤ entry.2 := by
    intro entry member
    obtain ⟨carrier, carried, member⟩ := List.mem_flatMap.mp member
    obtain ⟨successor, listed, rfl⟩ := List.mem_map.mp member
    have heavy : 0 < carrier.2 := by simpa using (List.mem_filter.mp carried).2
    have moves := regular.successors carrier.1 jointAction successor listed
    refine mul_nonneg ?_ (le_of_lt heavy)
    cases event with
    | false => exact moves
    | true => exact mul_nonneg (regular.eventObservation _ _ _ _) moves
  have moved := foldl_accumulate_nonneg contributed (List.forall_mem_nil _)
  rw [propagate]
  cases event with
  | true => exact moved
  | false =>
      intro entry member
      obtain ⟨other, listed, rfl⟩ := List.mem_map.mp member
      exact mul_nonneg (moved other listed) (regular.observation _ _ _)

theorem update_zero (regular : process.Nonnegative) {jointAction jointObservation : Nat}
    (impossible : (belief.update process jointAction jointObservation event).1 = 0) :
    (belief.update process jointAction jointObservation event).2.Drained :=
  adopt_zero (propagate_nonneg regular belief.support jointAction jointObservation) impossible

theorem Drained.update (drained : belief.Drained) (jointAction jointObservation : Nat) :
    (belief.update process jointAction jointObservation event).1 = 0 ∧
      (belief.update process jointAction jointObservation event).2.Drained := by
  have nowhere : propagate process belief.support jointAction jointObservation event = [] := by
    rw [propagate, show belief.support.filter (Weight.positive ·.2) = [] from drained]
    cases event <;> rfl
  rw [Belief.update, nowhere]
  have zero : (belief.adopt ([] : List (Nat × Rat))).1 = 0 := by
    cases belief with
    | dense entries => simp [adopt, Sparse.get?]
    | sparse size entries => rfl
  exact ⟨zero, adopt_zero (by simp) zero⟩

theorem Drained.likelihood (drained : belief.Drained) {word : List (Symbol .actionObservation)}
    (proper : word ≠ []) : belief.likelihood process event word = 0 := by
  cases word with
  | nil => cases proper rfl
  | cons symbol word =>
      cases symbol with
      | actionObservation jointAction jointObservation =>
          rw [Belief.likelihood, (drained.update jointAction jointObservation).1]
          exact Rat.zero_mul _

theorem Drained.after (drained : belief.Drained) (word : List (Symbol .actionObservation)) :
    (belief.after process event word).Drained := by
  induction word generalizing belief with
  | nil => exact drained
  | cons symbol word ih =>
      cases symbol with
      | actionObservation jointAction jointObservation =>
          exact ih (drained.update jointAction jointObservation).2

/-- After observations that cannot occur no observation can. -/
theorem likelihood_after_zero (regular : process.Nonnegative)
    {former later : List (Symbol .actionObservation)}
    (impossible : belief.likelihood process event former = 0) (proper : later ≠ []) :
    (belief.after process event former).likelihood process event later = 0 := by
  induction former generalizing belief with
  | nil => cases impossible
  | cons symbol former ih =>
      cases symbol with
      | actionObservation jointAction jointObservation =>
          rw [likelihood] at impossible
          rcases mul_eq_zero.mp impossible with here | later'
          · exact ((update_zero regular here).after former).likelihood proper
          · exact ih later'

theorem update_nonneg (regular : process.Nonnegative) (jointAction jointObservation : Nat) :
    0 ≤ (belief.update process jointAction jointObservation event).1 := by
  have nonneg : ∀ entry ∈ propagate process belief.support jointAction jointObservation event,
      0 ≤ entry.2 := propagate_nonneg regular belief.support jointAction jointObservation
  cases belief with
  | dense entries =>
      simp only [update, adopt, Weight.sum_eq]
      refine List.sum_nonneg fun p member => ?_
      obtain ⟨state, _, rfl⟩ := List.mem_map.mp member
      exact get?_nonneg nonneg state
  | sparse size entries =>
      simp only [update, adopt, Weight.sum_eq]
      refine List.sum_nonneg fun p member => ?_
      obtain ⟨entry, listed, rfl⟩ := List.mem_map.mp member
      exact nonneg entry (List.mem_of_mem_filter listed)

theorem likelihood_nonneg (regular : process.Nonnegative) (belief : Belief Rat)
    (word : List (Symbol .actionObservation)) : 0 ≤ belief.likelihood process event word := by
  induction word generalizing belief with
  | nil => exact zero_le_one
  | cons symbol word ih =>
      cases symbol with
      | actionObservation jointAction jointObservation =>
          exact mul_nonneg (update_nonneg regular jointAction jointObservation) (ih _)

end Belief

end TeamPlanning
