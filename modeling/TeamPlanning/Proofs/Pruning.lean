import TeamPlanning.Proofs.Normalization
import TeamPlanning.Proofs.Prediction

/-! # Pruning along a history

A sparse filter drops faint states before it normalizes, so one answer of it may well exceed the one
of a dense filter. Their product along a history does not. What the filter holds, times the
probability of the history so far and times the initial mass that it started from, is part of the
mass that the history moves. -/

set_option autoImplicit false

namespace TeamPlanning

open scoped BigOperators

namespace Sparse

/-- In a row without repeated keys, all entries below a bound are summed by key. -/
theorem sum_map_mul {row : List (Nat × Rat)} {keys : Nat} (sorted : Ascending row)
    (below : ∀ entry ∈ row, entry.1 < keys) (factor : Nat → Rat) :
    (row.map fun entry => entry.2 * factor entry.1).sum =
      ∑ key ∈ Finset.range keys, (get? row key).getD 0 * factor key := by
  have sorted' : Ascending (row.map fun entry => (entry.1, entry.2 * factor entry.1)) := by
    rw [Ascending, List.pairwise_map]
    exact sorted
  have below' : ∀ entry ∈ row.map fun entry => (entry.1, entry.2 * factor entry.1),
      entry.1 < keys := by
    intro entry member
    obtain ⟨held, listed, rfl⟩ := List.mem_map.mp member
    exact below held listed
  have total := sum_gathered below'
  simp only [gathered_of_ascending sorted', get?_map_mul, List.map_map] at total
  exact total.symm

end Sparse

namespace DecisionProcess

/-- The states that can come first, with their probabilities. -/
def initialRow (process : DecisionProcess Rat) : List (Nat × Rat) :=
  ((List.range process.states).map fun state => (state, process.initial state)).filter
    (Weight.positive ·.2)

variable {process : DecisionProcess Rat} {event : Bool}

theorem advance_mul (factor : Rat) (mass : Nat → Rat) (symbol : Symbol .actionObservation)
    (next : Nat) :
    process.advance event (fun state => factor * mass state) symbol next =
      factor * process.advance event mass symbol next := by
  rw [advance, advance, Finset.mul_sum]
  exact Finset.sum_congr rfl fun state _ => mul_assoc _ _ _

theorem Regular.advance_mono (regular : process.Regular) {mass other : Nat → Rat}
    (below : ∀ state, mass state ≤ other state) (symbol : Symbol .actionObservation) (next : Nat) :
    process.advance event mass symbol next ≤ process.advance event other symbol next :=
  Finset.sum_le_sum fun state _ =>
    mul_le_mul_of_nonneg_right (below state) (regular.passage_nonneg state symbol next)

theorem Regular.advance_nonneg (regular : process.Regular) {mass : Nat → Rat}
    (nonneg : ∀ state, 0 ≤ mass state) (symbol : Symbol .actionObservation) (next : Nat) :
    0 ≤ process.advance event mass symbol next :=
  Finset.sum_nonneg fun state _ =>
    mul_nonneg (nonneg state) (regular.passage_nonneg state symbol next)

end DecisionProcess

namespace Belief

theorem keptMass_pos {size : Nat} {mass : Nat → Rat} (nonneg : ∀ state, 0 ≤ mass state)
    {state : Nat} (inside : state < size) (heavy : Weight.tolerance < mass state) :
    0 < keptMass size mass :=
  Weight.tolerance_pos.trans (heavy.trans_le (le_keptMass nonneg inside heavy))

/-- Scaled and bounded state by state, what is kept is bounded by all that there is. -/
theorem mul_keptMass_le {size : Nat} {mass other : Nat → Rat} {factor : Rat}
    (below : ∀ state, factor * mass state ≤ other state) (nonneg : ∀ state, 0 ≤ other state) :
    factor * keptMass size mass ≤ ∑ state ∈ Finset.range size, other state := by
  rw [keptMass, Finset.mul_sum]
  calc ∑ state ∈ (Finset.range size).filter (Weight.tolerance < mass ·), factor * mass state
      ≤ ∑ state ∈ (Finset.range size).filter (Weight.tolerance < mass ·), other state :=
        Finset.sum_le_sum fun state _ => below state
    _ ≤ ∑ state ∈ Finset.range size, other state :=
        Finset.sum_le_sum_of_subset_of_nonneg (Finset.filter_subset _ _) fun state _ _ =>
          nonneg state

theorem mul_normalize {total : Rat} (some : 0 < total) (p : Rat) :
    total * normalize total p = p := by
  rw [normalize, if_pos ((Weight.positive_iff total).mpr some), mul_div_cancel₀ _ (ne_of_gt some)]

theorem normalize_nonneg {total p : Rat} (some : 0 ≤ total) (nonneg : 0 ≤ p) :
    0 ≤ normalize total p := by
  rw [normalize]
  split
  · exact div_nonneg nonneg some
  · exact nonneg

/-- A sparse belief whose states are held in order, without negative entries. -/
structure Orderly (size : Nat) (belief : Belief Rat) : Prop where
  sparse : ∃ row, belief = .sparse size row
  tidy : belief.Tidy
  nonneg : ∀ p ∈ belief.entries, 0 ≤ p

theorem adopt_orderly {size : Nat} (row : List (Nat × Rat)) {mass : List (Nat × Rat)}
    (sorted : Sparse.Ascending mass) (nonneg : ∀ entry ∈ mass, 0 ≤ entry.2) :
    ((Belief.sparse size row).adopt mass).2.Orderly size := by
  obtain ⟨kept, held, _, entries, tidy, _⟩ := (Belief.sparse size row).adopt_shares sorted nonneg
  refine ⟨⟨_, rfl⟩, tidy, fun p member => ?_⟩
  rw [entries] at member
  obtain ⟨q, listed, rfl⟩ := List.mem_map.mp member
  exact normalize_nonneg (List.sum_nonneg held) (held q listed)

namespace Orderly

variable {process : DecisionProcess Rat} {belief : Belief Rat}

theorem get_nonneg {size : Nat} (orderly : belief.Orderly size) (state : Nat) :
    0 ≤ belief.get state :=
  (belief.get_eq_zero_or_mem state).elim ge_of_eq (orderly.nonneg _)

/-- An update moves the entries by the symbol, keeps the states that enough is moved to, and
normalizes their mass. -/
theorem update (regular : process.Regular) (orderly : belief.Orderly process.states)
    (jointAction jointObservation : Nat) (event : Bool) :
    (belief.update process jointAction jointObservation event).2.Orderly process.states ∧
      (belief.update process jointAction jointObservation event).1 = keptMass process.states
        (process.advance event belief.get (.actionObservation jointAction jointObservation)) ∧
      ∀ next, (belief.update process jointAction jointObservation event).2.get next =
        if next < process.states ∧ Weight.tolerance <
            process.advance event belief.get (.actionObservation jointAction jointObservation)
              next then
          normalize (keptMass process.states (process.advance event belief.get
              (.actionObservation jointAction jointObservation)))
            (process.advance event belief.get (.actionObservation jointAction jointObservation)
              next)
        else 0 := by
  obtain ⟨⟨row, rfl⟩, ⟨sorted, below⟩, nonneg⟩ := orderly
  have held : ∀ entry ∈ row, 0 ≤ entry.2 := fun entry member =>
    nonneg _ (List.mem_map_of_mem member)
  have moved : massAt (propagate process (Belief.sparse process.states row).support jointAction
      jointObservation event) = process.advance event (Belief.sparse process.states row).get
        (.actionObservation jointAction jointObservation) := by
    funext next
    exact (massAt_propagate regular held jointAction jointObservation event next).trans
      (Sparse.sum_map_mul sorted below fun state =>
        process.passage event state (.actionObservation jointAction jointObservation) next)
  have ordered := ascending_propagate process (Belief.sparse process.states row).support
    jointAction jointObservation event
  obtain ⟨total, entries⟩ := adopt_sparse ordered process.states row
  rw [moved] at total entries
  exact ⟨adopt_orderly row ordered (propagate_nonneg regular.toNonnegative _ _ _), total, entries⟩

end Orderly

end Belief

namespace Realization

variable {process : DecisionProcess Rat} {event : Bool} {factor : Rat} {mass : Nat → Rat}
  {realization : Realization Rat}

/-- What a sparse filter carries is part of some mass: in every state, and in total. -/
structure Within (size : Nat) (factor : Rat) (mass : Nat → Rat) (realization : Realization Rat) :
    Prop where
  orderly : realization.belief.Orderly size
  entry : ∀ state,
    factor * realization.unconditional * realization.belief.get state ≤ mass state
  total : factor * realization.unconditional ≤ ∑ state ∈ Finset.range size, mass state

/-- The mass that an extension drops is lost, and what it keeps it carries on undiminished: the
normalization of the belief is made up for by the probability. -/
theorem Within.extend (regular : process.Regular)
    (within : realization.Within process.states factor mass) (nonneg : ∀ state, 0 ≤ mass state)
    (symbol : Symbol .actionObservation) :
    (realization.extend process event symbol).Within process.states factor
      (process.advance event mass symbol) := by
  cases symbol with
  | actionObservation jointAction jointObservation =>
      obtain ⟨orderly, kept, entries⟩ :=
        within.orderly.update regular jointAction jointObservation event
      have later : ∀ next, 0 ≤ process.advance event mass
          (.actionObservation jointAction jointObservation) next :=
        regular.advance_nonneg nonneg _
      have moved : ∀ next, factor * realization.unconditional *
          process.advance event realization.belief.get
            (.actionObservation jointAction jointObservation) next ≤
          process.advance event mass (.actionObservation jointAction jointObservation) next := by
        intro next
        rw [← DecisionProcess.advance_mul]
        exact regular.advance_mono within.entry _ next
      have reached : (realization.extend process event
          (.actionObservation jointAction jointObservation)).unconditional =
            realization.unconditional * Belief.keptMass process.states
              (process.advance event realization.belief.get
                (.actionObservation jointAction jointObservation)) :=
        congrArg (realization.unconditional * ·) kept
      constructor
      case orderly => exact orderly
      case total =>
        rw [reached, ← mul_assoc]
        exact Belief.mul_keptMass_le moved later
      case entry =>
        intro next
        have held : (realization.extend process event
            (.actionObservation jointAction jointObservation)).belief.get next = _ := entries next
        rw [held, reached]
        split
        · rename_i heavy
          have some := Belief.keptMass_pos
            (regular.advance_nonneg within.orderly.get_nonneg _) heavy.1 heavy.2
          rw [← mul_assoc, mul_assoc _ (Belief.keptMass _ _), Belief.mul_normalize some]
          exact moved next
        · rw [mul_zero]
          exact later next

/-- A sparse filter starts from its share of the initial distribution. -/
theorem start_within (nonneg : ∀ state, 0 ≤ process.initial state)
    (unit : ∑ state ∈ Finset.range process.states, process.initial state = 1) :
    (start process true).Within process.states
      (Belief.keptMass process.states process.initial) process.initial := by
  have listed : ∀ state < process.states,
      Belief.massAt process.initialRow state = process.initial state :=
    fun state inside => Belief.get?_listed nonneg inside
  have held : ∀ entry ∈ process.initialRow, 0 ≤ entry.2 :=
    fun entry member => le_of_lt ((Weight.positive_iff _).mp (List.mem_filter.mp member).2)
  have sorted : Sparse.Ascending process.initialRow :=
    List.Pairwise.filter _ (Sparse.ascending_listing process.states process.initial)
  obtain ⟨_, entries⟩ := Belief.adopt_sparse sorted process.states []
  rw [Belief.keptMass_congr listed] at entries
  constructor
  case orderly => exact Belief.adopt_orderly [] sorted held
  case total =>
    rw [unit]
    refine (mul_one _).trans_le ?_
    rw [← unit, ← one_mul (Belief.keptMass _ _)]
    exact Belief.mul_keptMass_le (fun state => (one_mul _).le) nonneg
  case entry =>
    intro state
    refine (congrArg (_ * ·) (entries state)).trans_le ?_
    split
    · rename_i heavy
      rw [listed state heavy.1] at heavy ⊢
      have some := Belief.keptMass_pos nonneg heavy.1 heavy.2
      refine (congrArg (· * _) (mul_one _)).trans_le ?_
      exact (Belief.mul_normalize some _).le
    · rw [mul_zero]
      exact nonneg state

/-- All along a word, a sparse filter carries part of the mass that the word moves. -/
theorem along_start_within (regular : process.Regular)
    (nonneg : ∀ state, 0 ≤ process.initial state)
    (unit : ∑ state ∈ Finset.range process.states, process.initial state = 1) (event : Bool)
    (word : List (Symbol .actionObservation)) :
    ((start process true).along process event word).Within process.states
      (Belief.keptMass process.states process.initial) (process.forward event word) := by
  induction word using List.reverseRecOn with
  | nil => exact start_within nonneg unit
  | append_singleton word symbol ih =>
      rw [along_append, DecisionProcess.forward_concat]
      exact ih.extend regular (regular.forward_nonneg nonneg word) symbol

end Realization

end TeamPlanning
