import Mathlib.Algebra.BigOperators.Field
import Mathlib.Algebra.BigOperators.Fin
import Mathlib.Algebra.Order.BigOperators.Group.Finset
import Mathlib.Tactic.FieldSimp
import TeamPlanning.Proofs.Gathering
import TeamPlanning.Proofs.Likelihood

/-! # Forward masses

The mass that reaches a state along a word is linear in the mass that the word starts from. A dense
belief holds its normalized form, and the probability of the word is all of it. -/

set_option autoImplicit false

namespace TeamPlanning

open scoped BigOperators

namespace DecisionProcess

variable {process : DecisionProcess Rat} {event : Bool}

/-- Successors are listed with the probabilities of their transitions, and no weight is negative. -/
structure Regular (process : DecisionProcess Rat) : Prop extends process.Nonnegative where
  listed : ∀ state jointAction next,
    Sparse.gathered (process.successors state jointAction) next =
      process.transition state jointAction next

/-- The probability of a joint observation on the way from one state to another. -/
def emission (process : DecisionProcess Rat) (event : Bool)
    (state jointAction next jointObservation : Nat) : Rat :=
  if event then process.eventObservation state jointAction next jointObservation
  else process.observation jointAction next jointObservation

/-- The probability of passing to a state with the observation of a symbol, given its action. -/
def passage (process : DecisionProcess Rat) (event : Bool) (state : Nat) :
    Symbol .actionObservation → (next : Nat) → Rat
  | .actionObservation jointAction jointObservation, next =>
      process.transition state jointAction next *
        process.emission event state jointAction next jointObservation

/-- Moves mass by one symbol. -/
def advance (process : DecisionProcess Rat) (event : Bool) (mass : Nat → Rat)
    (symbol : Symbol .actionObservation) (next : Nat) : Rat :=
  ∑ state ∈ Finset.range process.states, mass state * process.passage event state symbol next

/-- The mass that a word moves from the initial distribution to a state. -/
def forward (process : DecisionProcess Rat) (event : Bool)
    (word : List (Symbol .actionObservation)) : Nat → Rat :=
  word.foldl (process.advance event) process.initial

/-- The probability of the observations of a word, given its actions. -/
def evidence (process : DecisionProcess Rat) (event : Bool)
    (word : List (Symbol .actionObservation)) : Rat :=
  ∑ state ∈ Finset.range process.states, process.forward event word state

theorem forward_concat (word : List (Symbol .actionObservation))
    (symbol : Symbol .actionObservation) :
    process.forward event (word ++ [symbol]) =
      process.advance event (process.forward event word) symbol := by
  simp [forward]

theorem Nonnegative.transition_nonneg (regular : process.Regular) (state jointAction next : Nat) :
    0 ≤ process.transition state jointAction next := by
  rw [← regular.listed]
  refine List.sum_nonneg fun p member => ?_
  obtain ⟨entry, listed, rfl⟩ := List.mem_map.mp member
  split
  · exact regular.successors state jointAction entry listed
  · exact le_refl 0

theorem Regular.passage_nonneg (regular : process.Regular) (state : Nat)
    (symbol : Symbol .actionObservation) (next : Nat) :
    0 ≤ process.passage event state symbol next := by
  cases symbol with
  | actionObservation jointAction jointObservation =>
      refine mul_nonneg (Nonnegative.transition_nonneg regular _ _ _) ?_
      cases event with
      | false => exact regular.observation _ _ _
      | true => exact regular.eventObservation _ _ _ _

theorem Regular.forward_nonneg (regular : process.Regular)
    (start : ∀ state, 0 ≤ process.initial state) (word : List (Symbol .actionObservation)) :
    ∀ state, 0 ≤ process.forward event word state := by
  induction word using List.reverseRecOn with
  | nil => exact start
  | append_singleton word symbol ih =>
      intro next
      rw [forward_concat]
      exact Finset.sum_nonneg fun state _ =>
        mul_nonneg (ih state) (regular.passage_nonneg state symbol next)

end DecisionProcess

namespace Belief

variable {process : DecisionProcess Rat} {event : Bool}

theorem gathered_contributions (regular : process.Regular)
    (jointAction jointObservation : Nat) (entry : Nat × Rat) (next : Nat) :
    Sparse.gathered (contributions process jointAction jointObservation event entry) next =
      (if event then process.eventObservation entry.1 jointAction next jointObservation else 1) *
        process.transition entry.1 jointAction next * entry.2 := by
  have weighted : contributions process jointAction jointObservation event entry =
      (process.successors entry.1 jointAction).map fun successor => (successor.1,
        (if event then process.eventObservation entry.1 jointAction successor.1 jointObservation
          else 1) * entry.2 * successor.2) := by
    refine List.map_congr_left fun successor _ => ?_
    cases event with
    | false =>
        simp only [Bool.false_eq_true, ↓reduceIte, one_mul]
        rw [mul_comm]
    | true =>
        simp only [↓reduceIte]
        ring_nf
  rw [weighted, Sparse.gathered_map_mul (process.successors entry.1 jointAction) (fun next =>
    (if event then process.eventObservation entry.1 jointAction next jointObservation else 1) *
      entry.2), regular.listed]
  ring

theorem get?_propagate (regular : process.Regular) (support : List (Nat × Rat))
    (jointAction jointObservation next : Nat) :
    (Sparse.get? (propagate process support jointAction jointObservation event) next).getD 0 =
      ((support.filter (Weight.positive ·.2)).map fun entry =>
        entry.2 * process.passage event entry.1
          (.actionObservation jointAction jointObservation) next).sum := by
  have moved := get?_foldl_accumulate ((support.filter (Weight.positive ·.2)).flatMap
    (contributions process jointAction jointObservation event)) [] next
  rw [Sparse.gathered_flatMap] at moved
  simp only [gathered_contributions regular, Sparse.get?, Option.getD_none, zero_add] at moved
  cases event with
  | true =>
      refine moved.trans (congrArg List.sum (List.map_congr_left fun entry _ => ?_))
      simp only [↓reduceIte, DecisionProcess.passage, DecisionProcess.emission]
      ring
  | false =>
      have weighted := Sparse.get?_map_mul
        (((support.filter (Weight.positive ·.2)).flatMap
          (contributions process jointAction jointObservation false)).foldl accumulate [])
        (process.observation jointAction · jointObservation) next
      rw [moved, ← List.sum_map_mul_right] at weighted
      refine weighted.trans (congrArg List.sum (List.map_congr_left fun entry _ => ?_))
      simp only [Bool.false_eq_true, ↓reduceIte, DecisionProcess.passage,
        DecisionProcess.emission]
      ring

/-! ## Dense beliefs -/

/-- The dense belief with the given entries. -/
def tabulate (size : Nat) (entry : Nat → Rat) : Belief Rat := .dense ((List.range size).map entry)

theorem map_range_getElem? (entries : List Rat) :
    (List.range entries.length).map (entries[·]?.getD 0) = entries := by
  refine List.ext_getElem (by simp) fun place _ inside => ?_
  simp [inside]

theorem dense_eq_tabulate (entries : List Rat) :
    Belief.dense entries = tabulate entries.length (entries[·]?.getD 0) :=
  congrArg Belief.dense (map_range_getElem? entries).symm

theorem getElem?_nonneg {entries : List Rat} (nonneg : ∀ p ∈ entries, 0 ≤ p) (state : Nat) :
    0 ≤ entries[state]?.getD 0 := by
  cases found : entries[state]? with
  | none => exact le_refl 0
  | some p => exact nonneg p (List.mem_of_getElem? found)

theorem get_tabulate {size state : Nat} (inside : state < size) (entry : Nat → Rat) :
    (tabulate size entry).get state = entry state := by
  simp [tabulate, get, inside]

theorem sum_map_filter {α : Type} {items : List α} {keep : α → Bool} {weight : α → Rat}
    (dropped : ∀ item ∈ items, keep item = false → weight item = 0) :
    ((items.filter keep).map weight).sum = (items.map weight).sum := by
  induction items with
  | nil => rfl
  | cons item items ih =>
      obtain ⟨first, others⟩ := List.forall_mem_cons.mp dropped
      cases kept : keep item with
      | true => rw [List.filter_cons_of_pos kept, List.map_cons, List.sum_cons, ih others,
          List.map_cons, List.sum_cons]
      | false => rw [List.filter_cons_of_neg (by simp [kept]), ih others, List.map_cons,
          List.sum_cons, first kept, zero_add]

theorem support_tabulate (size : Nat) (entry : Nat → Rat) :
    (tabulate size entry).support =
      ((List.range size).map fun state => (state, entry state)).filter
        (!Weight.eq ·.2 Weight.zero) := by
  have listed : ((List.range size).map entry).zipIdx.map (fun pair => (pair.2, pair.1)) =
      (List.range size).map fun state => (state, entry state) := by
    refine List.ext_getElem (by simp) fun place _ _ => ?_
    simp
  rw [← listed]
  rfl

/-- States without mass do not count in what a dense belief passes on. -/
theorem sum_support_tabulate {size : Nat} {entry : Nat → Rat} (nonneg : ∀ state, 0 ≤ entry state)
    (factor : Nat → Rat) :
    (((tabulate size entry).support.filter (Weight.positive ·.2)).map fun held =>
        held.2 * factor held.1).sum =
      ∑ state ∈ Finset.range size, entry state * factor state := by
  rw [support_tabulate, List.filter_filter]
  refine (sum_map_filter fun held member dropped => ?_).trans ?_
  · obtain ⟨state, _, rfl⟩ := List.mem_map.mp member
    have none : entry state = 0 := by
      by_contra some
      have positive := lt_of_le_of_ne (nonneg state) (Ne.symm some)
      simp [Weight.eq, positive, some] at dropped
    simp [none]
  · rw [List.map_map]
    rfl

theorem adopt_tabulate (size : Nat) (entry : Nat → Rat) (mass : List (Nat × Rat)) :
    (tabulate size entry).adopt mass =
      (∑ state ∈ Finset.range size, (Sparse.get? mass state).getD 0,
        tabulate size fun state => normalize
          (∑ state ∈ Finset.range size, (Sparse.get? mass state).getD 0)
          ((Sparse.get? mass state).getD 0)) := by
  simp only [tabulate, adopt, List.length_map, List.length_range, Weight.sum_eq, Weight.zero_eq,
    List.map_map]
  rfl

/-- An update of nonnegative entries moves them by the symbol and normalizes the result. -/
theorem update_tabulate (regular : process.Regular) {entry : Nat → Rat}
    (nonneg : ∀ state, 0 ≤ entry state) (jointAction jointObservation : Nat) :
    (tabulate process.states entry).update process jointAction jointObservation event =
      (∑ next ∈ Finset.range process.states,
          process.advance event entry (.actionObservation jointAction jointObservation) next,
        tabulate process.states fun next => normalize
          (∑ next ∈ Finset.range process.states,
            process.advance event entry (.actionObservation jointAction jointObservation) next)
          (process.advance event entry (.actionObservation jointAction jointObservation)
            next)) := by
  have arrived : ∀ next, (Sparse.get? (propagate process (tabulate process.states entry).support
      jointAction jointObservation event) next).getD 0 =
        process.advance event entry (.actionObservation jointAction jointObservation) next :=
    fun next => (get?_propagate regular _ jointAction jointObservation next).trans
      (sum_support_tabulate nonneg fun state =>
        process.passage event state (.actionObservation jointAction jointObservation) next)
  rw [update, adopt_tabulate]
  simp only [arrived]

theorem tabulate_congr {size : Nat} {entry other : Nat → Rat}
    (same : ∀ state < size, entry state = other state) :
    tabulate size entry = tabulate size other := by
  refine congrArg Belief.dense (List.map_congr_left fun state inside => ?_)
  exact same state (List.mem_range.mp inside)

theorem normalize_eq_div {total p : Rat} (nonneg : 0 ≤ total) (none : total = 0 → p = 0) :
    normalize total p = p / total := by
  rw [normalize]
  by_cases some : 0 < total
  · rw [if_pos ((Weight.positive_iff total).mpr some)]
  · have zero : total = 0 := le_antisymm (not_lt.mp some) nonneg
    rw [if_neg (by simpa using some), none zero, zero_div]

theorem get?_listed {size state : Nat} {entry : Nat → Rat} (nonneg : ∀ state, 0 ≤ entry state)
    (inside : state < size) :
    (Sparse.get? (((List.range size).map fun state => (state, entry state)).filter
      (Weight.positive ·.2)) state).getD 0 = entry state := by
  have sorted : Sparse.Ascending (((List.range size).map fun state => (state, entry state)).filter
      (Weight.positive ·.2)) := List.Pairwise.filter _ (Sparse.ascending_listing size entry)
  rw [← Sparse.gathered_of_ascending sorted, Sparse.gathered]
  refine (sum_map_filter fun held member dropped => ?_).trans ?_
  · obtain ⟨other, _, rfl⟩ := List.mem_map.mp member
    have none : ¬ 0 < entry other := by
      rw [← Weight.positive_iff, dropped]
      exact Bool.false_ne_true
    simp [le_antisymm (not_lt.mp none) (nonneg other)]
  · rw [List.map_map]
    refine (Finset.sum_ite_eq' (Finset.range size) state entry).trans ?_
    rw [if_pos (Finset.mem_range.mpr inside)]

theorem reset_zero {process : DecisionProcess Rat} (nonneg : ∀ state, 0 ≤ process.initial state)
    (total : ∑ state ∈ Finset.range process.states, process.initial state = 1) :
    (zero process.states false).reset process = tabulate process.states process.initial := by
  have blank : zero process.states false = tabulate process.states fun _ => 0 := by
    simp [zero, tabulate]
  have kept : ∀ state ∈ Finset.range process.states, (Sparse.get?
      (((List.range process.states).map fun state => (state, process.initial state)).filter
        (Weight.positive ·.2)) state).getD 0 = process.initial state :=
    fun state inside => get?_listed nonneg (Finset.mem_range.mp inside)
  simp only [reset, blank, adopt_tabulate]
  rw [Finset.sum_congr rfl kept, total]
  refine tabulate_congr fun state inside => ?_
  rw [kept state (Finset.mem_range.mpr inside), normalize_eq_div zero_le_one (by simp), div_one]

end Belief

namespace DecisionProcess

variable {process : DecisionProcess Rat} {event : Bool}

theorem advance_div (mass : Nat → Rat) (total : Rat) (symbol : Symbol .actionObservation)
    (next : Nat) :
    process.advance event (fun state => mass state / total) symbol next =
      process.advance event mass symbol next / total := by
  rw [advance, advance, Finset.sum_div]
  exact Finset.sum_congr rfl fun state _ => by ring

theorem evidence_concat (word : List (Symbol .actionObservation))
    (symbol : Symbol .actionObservation) :
    process.evidence event (word ++ [symbol]) = ∑ next ∈ Finset.range process.states,
      process.advance event (process.forward event word) symbol next := by
  rw [evidence, forward_concat]

theorem evidence_nonneg (regular : process.Regular)
    (start : ∀ state, 0 ≤ process.initial state) (word : List (Symbol .actionObservation)) :
    0 ≤ process.evidence event word :=
  Finset.sum_nonneg fun state _ => regular.forward_nonneg start word state

theorem forward_eq_zero (regular : process.Regular)
    (start : ∀ state, 0 ≤ process.initial state) {word : List (Symbol .actionObservation)}
    (none : process.evidence event word = 0) {state : Nat} (inside : state < process.states) :
    process.forward event word state = 0 :=
  (Finset.sum_eq_zero_iff_of_nonneg fun state _ => regular.forward_nonneg start word state).mp none
    state (Finset.mem_range.mpr inside)

theorem advance_eq_zero (regular : process.Regular)
    (start : ∀ state, 0 ≤ process.initial state) {word : List (Symbol .actionObservation)}
    (none : process.evidence event word = 0) (symbol : Symbol .actionObservation) (next : Nat) :
    process.advance event (process.forward event word) symbol next = 0 :=
  Finset.sum_eq_zero fun state inside => by
    rw [forward_eq_zero regular start none (Finset.mem_range.mp inside), zero_mul]

theorem evidence_concat_eq_zero (regular : process.Regular)
    (start : ∀ state, 0 ≤ process.initial state) {word : List (Symbol .actionObservation)}
    (none : process.evidence event word = 0) (symbol : Symbol .actionObservation) :
    process.evidence event (word ++ [symbol]) = 0 := by
  rw [evidence_concat]
  exact Finset.sum_eq_zero fun next _ => advance_eq_zero regular start none symbol next

theorem sum_passage {jointAction observations state : Nat}
    (transition : ∑ next ∈ Finset.range process.states,
      process.transition state jointAction next = 1)
    (observation : ∀ next < process.states, process.transition state jointAction next ≠ 0 →
      ∑ o ∈ Finset.range observations, process.emission event state jointAction next o = 1) :
    ∑ next ∈ Finset.range process.states, ∑ o ∈ Finset.range observations,
      process.passage event state (.actionObservation jointAction o) next = 1 := by
  refine Eq.trans (Finset.sum_congr rfl fun next member => ?_) transition
  refine (Finset.mul_sum (Finset.range observations) _ _).symm.trans ?_
  by_cases possible : process.transition state jointAction next = 0
  · rw [possible, zero_mul]
  · rw [observation next (Finset.mem_range.mp member) possible, mul_one]

/-- Mass is shared out among the joint observations and the states that are reached. -/
theorem sum_advance (mass : Nat → Rat) (jointAction observations : Nat) :
    ∑ o ∈ Finset.range observations, ∑ next ∈ Finset.range process.states,
        process.advance event mass (.actionObservation jointAction o) next =
      ∑ state ∈ Finset.range process.states, mass state *
        ∑ next ∈ Finset.range process.states, ∑ o ∈ Finset.range observations,
          process.passage event state (.actionObservation jointAction o) next := by
  have step : ∀ o, ∑ next ∈ Finset.range process.states,
        process.advance event mass (.actionObservation jointAction o) next =
      ∑ state ∈ Finset.range process.states, mass state * ∑ next ∈ Finset.range process.states,
        process.passage event state (.actionObservation jointAction o) next := by
    intro o
    simp only [advance, Finset.mul_sum]
    exact Finset.sum_comm
  rw [Finset.sum_congr rfl fun o _ => step o, Finset.sum_comm]
  refine Finset.sum_congr rfl fun state _ => ?_
  rw [← Finset.mul_sum, Finset.sum_comm]

/-- The evidence of a history is shared out among the observations of one more step. -/
theorem sum_evidence_concat {jointAction observations : Nat}
    (complete : ∀ state < process.states,
      ∑ next ∈ Finset.range process.states, ∑ o ∈ Finset.range observations,
        process.passage event state (.actionObservation jointAction o) next = 1)
    (word : List (Symbol .actionObservation)) :
    ∑ o ∈ Finset.range observations,
        process.evidence event (word ++ [.actionObservation jointAction o]) =
      process.evidence event word := by
  simp only [evidence_concat, sum_advance]
  refine Finset.sum_congr rfl fun state member => ?_
  rw [complete state (Finset.mem_range.mp member), mul_one]

end DecisionProcess

namespace Belief

variable {process : DecisionProcess Rat} {event : Bool}

/-- Filtered by one more symbol, normalized forward masses are normalized forward masses. Without
evidence before it both sides vanish. -/
theorem update_forward (regular : process.Regular)
    (start : ∀ state, 0 ≤ process.initial state) (word : List (Symbol .actionObservation))
    (jointAction jointObservation : Nat) :
    (tabulate process.states fun state =>
        process.forward event word state / process.evidence event word).update process jointAction
          jointObservation event =
      (process.evidence event (word ++ [.actionObservation jointAction jointObservation]) /
          process.evidence event word,
        tabulate process.states fun next =>
          process.forward event (word ++ [.actionObservation jointAction jointObservation]) next /
            process.evidence event
              (word ++ [.actionObservation jointAction jointObservation])) := by
  have earlier : 0 ≤ process.evidence event word :=
    DecisionProcess.evidence_nonneg regular start word
  have later : 0 ≤ process.evidence event
      (word ++ [.actionObservation jointAction jointObservation]) :=
    DecisionProcess.evidence_nonneg regular start _
  have entries : ∀ state, 0 ≤ process.forward event word state / process.evidence event word :=
    fun state => div_nonneg (regular.forward_nonneg start word state) earlier
  have updated : update _ process jointAction jointObservation event = _ :=
    update_tabulate regular entries jointAction jointObservation
  simp only [DecisionProcess.advance_div, ← Finset.sum_div,
    ← DecisionProcess.evidence_concat] at updated
  simp only [← DecisionProcess.forward_concat] at updated
  refine updated.trans (congrArg (Prod.mk _) (tabulate_congr fun next inside => ?_))
  by_cases none : process.evidence event word = 0
  · have gone : process.forward event
        (word ++ [.actionObservation jointAction jointObservation]) next = 0 := by
      rw [DecisionProcess.forward_concat]
      exact DecisionProcess.advance_eq_zero regular start none _ next
    rw [gone, zero_div, zero_div, normalize_eq_div (div_nonneg later earlier) fun _ => rfl,
      zero_div]
  · rw [normalize_eq_div (div_nonneg later earlier), div_div_div_cancel_right₀ none]
    intro vanished
    have gone := (div_eq_zero_iff.mp vanished).resolve_right none
    rw [DecisionProcess.forward_eq_zero regular start gone inside, zero_div]

end Belief

namespace Realization

variable {process : DecisionProcess Rat} {event : Bool}

/-- The filter carries the forward masses, divided by the evidence, and multiplies up the evidence.
Once there is none, both are zero. -/
theorem along_start (regular : process.Regular) (nonneg : ∀ state, 0 ≤ process.initial state)
    (total : ∑ state ∈ Finset.range process.states, process.initial state = 1)
    (word : List (Symbol .actionObservation)) :
    ((start process false).along process event word).belief =
        Belief.tabulate process.states (fun state =>
          process.forward event word state / process.evidence event word) ∧
      ((start process false).along process event word).unconditional =
        process.evidence event word := by
  induction word using List.reverseRecOn with
  | nil =>
      have whole : process.evidence event [] = 1 := total
      refine ⟨(Belief.reset_zero nonneg total).trans ?_, whole.symm⟩
      exact Belief.tabulate_congr fun state _ => by rw [whole, div_one]; rfl
  | append_singleton word symbol ih =>
      obtain ⟨belief, unconditional⟩ := ih
      cases symbol with
      | actionObservation jointAction jointObservation =>
          have updated : Belief.update _ process jointAction jointObservation event = _ :=
            Belief.update_forward regular nonneg word jointAction jointObservation
          rw [along_append]
          simp only [along, List.foldl_cons, List.foldl_nil, extend] at belief unconditional ⊢
          rw [belief, updated, unconditional]
          refine ⟨rfl, mul_div_cancel_of_imp' fun none => ?_⟩
          exact DecisionProcess.evidence_concat_eq_zero regular nonneg none _

end Realization

end TeamPlanning
