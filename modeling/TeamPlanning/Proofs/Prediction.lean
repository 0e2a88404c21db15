import TeamPlanning.Proofs.SparseBeliefs

/-! # Prediction

What an update moves to a state is the numerator of Bayes' rule: a sum over the states left behind.
If observations do not depend on these, it is the same whether each part of the sum is weighted or
the sum as a whole. -/

set_option autoImplicit false

namespace TeamPlanning

namespace Sparse

variable {β γ : Type}

theorem map_insert (row : List (Nat × β)) (change : Nat → β → γ) (key : Nat) (value : β) :
    (insert row key value).map (fun entry => (entry.1, change entry.1 entry.2)) =
      insert (row.map fun entry => (entry.1, change entry.1 entry.2)) key (change key value) := by
  induction row with
  | nil => rfl
  | cons entry row ih =>
      rw [insert, List.map_cons, insert]
      by_cases before : key < entry.1
      · rw [if_pos before, if_pos before]
        rfl
      · rw [if_neg before, if_neg before]
        by_cases here : key = entry.1
        · rw [if_pos here, if_pos here]
          rfl
        · rw [if_neg here, if_neg here, List.map_cons, ih]

end Sparse

namespace Belief

/-- Every entry times the factor of its key. -/
def scale (factor : Nat → Rat) (row : List (Nat × Rat)) : List (Nat × Rat) :=
  row.map fun entry => (entry.1, entry.2 * factor entry.1)

theorem scale_accumulate (factor : Nat → Rat) (mass : List (Nat × Rat)) (entry : Nat × Rat) :
    scale factor (accumulate mass entry) =
      accumulate (scale factor mass) (entry.1, entry.2 * factor entry.1) := by
  have total : (Sparse.get? (scale factor mass) entry.1).getD Weight.zero +
      entry.2 * factor entry.1 =
        ((Sparse.get? mass entry.1).getD Weight.zero + entry.2) * factor entry.1 := by
    rw [add_mul]
    exact congrArg (· + _) (Sparse.get?_map_mul mass factor entry.1)
  rw [accumulate, accumulate, Sparse.alter, Sparse.alter, total]
  exact Sparse.map_insert mass (fun key p => p * factor key) entry.1 _

/-- What is scaled before it is accumulated need not be scaled after. -/
theorem foldl_accumulate_scale (factor : Nat → Rat) (entries mass : List (Nat × Rat)) :
    (scale factor entries).foldl accumulate (scale factor mass) =
      scale factor (entries.foldl accumulate mass) := by
  induction entries generalizing mass with
  | nil => rfl
  | cons entry entries ih =>
      rw [List.foldl_cons, ← ih, scale_accumulate]
      rfl

section Plain

variable {process : DecisionProcess Rat} {jointAction jointObservation : Nat}
  (plain : ∀ state next, process.eventObservation state jointAction next jointObservation =
    process.observation jointAction next jointObservation)
include plain

theorem contributions_eq_scale (entry : Nat × Rat) :
    contributions process jointAction jointObservation true entry =
      scale (process.observation jointAction · jointObservation)
        (contributions process jointAction jointObservation false entry) := by
  rw [contributions, contributions, scale, List.map_map]
  refine List.map_congr_left fun successor _ => Prod.ext rfl ?_
  simp only [↓reduceIte, plain, Function.comp_apply, Bool.false_eq_true]
  ring

/-- Where observations do not depend on the state left behind, both ways of prediction list the same
masses. -/
theorem propagate_true_eq (support : List (Nat × Rat)) :
    propagate process support jointAction jointObservation true =
      propagate process support jointAction jointObservation false := by
  have scaled : (support.filter (Weight.positive ·.2)).flatMap
      (contributions process jointAction jointObservation true) =
        scale (process.observation jointAction · jointObservation)
          ((support.filter (Weight.positive ·.2)).flatMap
            (contributions process jointAction jointObservation false)) := by
    rw [scale, List.map_flatMap]
    exact List.flatMap_congr fun entry _ => contributions_eq_scale plain entry
  simp only [propagate, ↓reduceIte, Bool.false_eq_true]
  rw [scaled]
  exact foldl_accumulate_scale _ _ []

end Plain

/-- States without mass move nothing. -/
theorem massAt_propagate {process : DecisionProcess Rat} (regular : process.Regular)
    {support : List (Nat × Rat)} (nonneg : ∀ entry ∈ support, 0 ≤ entry.2)
    (jointAction jointObservation : Nat) (event : Bool) (next : Nat) :
    massAt (propagate process support jointAction jointObservation event) next =
      (support.map fun entry => entry.2 * process.passage event entry.1
        (.actionObservation jointAction jointObservation) next).sum := by
  refine (get?_propagate regular support jointAction jointObservation next).trans ?_
  refine sum_map_filter fun entry member dropped => ?_
  have none : entry.2 = 0 := by
    rw [← Bool.not_eq_true, Weight.positive_iff, not_lt] at dropped
    exact le_antisymm dropped (nonneg entry member)
  rw [none, zero_mul]

end Belief

namespace Model

variable {model : Model Rat}

/-- The masses that an update of the given support moves, with and without events. -/
theorem Sound.massAt_propagate (sound : model.Sound) {support : List (Nat × Rat)}
    (nonneg : ∀ entry ∈ support, 0 ≤ entry.2) (jointAction jointObservation next : Nat) :
    Belief.massAt (Belief.propagate model.process support jointAction jointObservation false) next =
        model.observation jointAction next jointObservation *
          (support.map fun entry => model.transition entry.1 jointAction next * entry.2).sum ∧
      Belief.massAt (Belief.propagate model.process support jointAction jointObservation true) next =
        (support.map fun entry =>
          model.eventObservation entry.1 jointAction next jointObservation *
            model.transition entry.1 jointAction next * entry.2).sum := by
  rw [Belief.massAt_propagate sound.regular nonneg, Belief.massAt_propagate sound.regular nonneg,
    ← List.sum_map_mul_left]
  constructor
  · refine congrArg List.sum (List.map_congr_left fun entry _ => ?_)
    simp only [DecisionProcess.passage, DecisionProcess.emission, Bool.false_eq_true, ↓reduceIte]
    change entry.2 * (model.transition entry.1 jointAction next *
      model.observation jointAction next jointObservation) = _
    ring
  · refine congrArg List.sum (List.map_congr_left fun entry _ => ?_)
    simp only [DecisionProcess.passage, DecisionProcess.emission, ↓reduceIte]
    change entry.2 * (model.transition entry.1 jointAction next *
      model.eventObservation entry.1 jointAction next jointObservation) = _
    ring

end Model

end TeamPlanning
