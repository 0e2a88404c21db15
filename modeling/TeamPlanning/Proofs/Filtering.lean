import Mathlib.Analysis.Convex.Combination
import Mathlib.Tactic.Linarith
import TeamPlanning.Proofs.Model

/-! # Total mass of the observations

Over all joint observations a validated model answers about one, up to the tolerances of a row of
transitions and of a row of observations. What is validated is the table of observations that the
model uses, so a model that is driven by events may lose mass where it is asked to ignore them. -/

set_option autoImplicit false

namespace TeamPlanning

open scoped BigOperators

/-- Weights that are about one in total, of values that are about one each. -/
theorem sum_mul_mem_Icc {items : Finset Nat} {weight value : Nat → Rat} {e : Rat} (small : e ≤ 1)
    (nonneg : ∀ item ∈ items, 0 ≤ weight item) (total : |∑ item ∈ items, weight item - 1| ≤ e)
    (each : ∀ item ∈ items, |value item - 1| ≤ e) :
    ∑ item ∈ items, weight item * value item ∈ Set.Icc ((1 - e) ^ 2) ((1 + e) ^ 2) := by
  obtain ⟨below, above⟩ := abs_le.mp total
  have lower : (∑ item ∈ items, weight item) * (1 - e) ≤
      ∑ item ∈ items, weight item * value item := by
    rw [Finset.sum_mul]
    refine Finset.sum_le_sum fun item member => ?_
    have near := (abs_le.mp (each item member)).1
    exact mul_le_mul_of_nonneg_left (by linarith) (nonneg item member)
  have upper : ∑ item ∈ items, weight item * value item ≤
      (∑ item ∈ items, weight item) * (1 + e) := by
    rw [Finset.sum_mul]
    refine Finset.sum_le_sum fun item member => ?_
    have near := (abs_le.mp (each item member)).2
    exact mul_le_mul_of_nonneg_left (by linarith) (nonneg item member)
  constructor
  · refine le_trans ?_ lower
    rw [sq]
    exact mul_le_mul_of_nonneg_right (by linarith) (by linarith)
  · refine upper.trans ?_
    rw [sq]
    exact mul_le_mul_of_nonneg_right (by linarith) (by linarith)

namespace Weight

/-- What two rows in turn make of a unit of mass, if each sums to one up to the tolerance. -/
def nearUnit : Set Rat := Set.Icc ((1 - tolerance) ^ 2) ((1 + tolerance) ^ 2)

theorem tolerance_lt_one : (tolerance : Rat) < 1 := by
  decide +kernel

theorem zero_notMem_nearUnit : 0 ∉ nearUnit :=
  fun member => absurd member.1 (not_le.mpr (pow_pos (sub_pos.mpr tolerance_lt_one) 2))

end Weight

/-- All mass on one state. -/
def Belief.point (state other : Nat) : Rat := if other = state then 1 else 0

theorem Belief.point_nonneg (state other : Nat) : 0 ≤ point state other := by
  rw [point]
  split
  · exact zero_le_one
  · exact le_refl 0

namespace DecisionProcess

variable {process : DecisionProcess Rat} {event : Bool} {observations : Nat}

/-- The share of the mass of a state that a joint action moves on, with any joint observation. -/
def outflow (process : DecisionProcess Rat) (event : Bool) (observations state jointAction : Nat) :
    Rat :=
  ∑ next ∈ Finset.range process.states, ∑ o ∈ Finset.range observations,
    process.passage event state (.actionObservation jointAction o) next

theorem outflow_eq (state jointAction : Nat) :
    process.outflow event observations state jointAction =
      ∑ next ∈ Finset.range process.states, process.transition state jointAction next *
        ∑ o ∈ Finset.range observations, process.emission event state jointAction next o :=
  Finset.sum_congr rfl fun _ _ => (Finset.mul_sum _ _ _).symm

theorem sum_update (regular : process.Regular) {entry : Nat → Rat}
    (nonneg : ∀ state, 0 ≤ entry state) (jointAction : Nat) :
    ∑ o ∈ Finset.range observations,
        ((Belief.tabulate process.states entry).update process jointAction o event).1 =
      ∑ state ∈ Finset.range process.states, entry state *
        process.outflow event observations state jointAction := by
  simp only [Belief.update_tabulate regular nonneg]
  exact sum_advance entry jointAction observations

end DecisionProcess

namespace Model

variable {model : Model Rat} {event : Bool} {state jointAction next : Nat}

/-- From every dense belief that is a distribution, the masses that the updates by all joint
observations answer with add up to about one. -/
def FiltersSoundly (model : Model Rat) (event : Bool) : Prop :=
  ∀ entries : List Rat, entries.length = model.states → (∀ p ∈ entries, 0 ≤ p) →
    entries.sum = 1 → ∀ jointAction < model.jointActions,
      ∑ o ∈ Finset.range model.jointObservations,
        ((Belief.dense entries).update model.process jointAction o event).1 ∈ Weight.nearUnit

/-- A distribution mixes what the states pass on, and every state is a distribution. -/
theorem Sound.filtersSoundly_iff_outflow (sound : model.Sound) (event : Bool) :
    model.FiltersSoundly event ↔ ∀ state < model.states, ∀ jointAction < model.jointActions,
      model.process.outflow event model.jointObservations state jointAction ∈
        Weight.nearUnit := by
  have moved : ∀ entry : Nat → Rat, (∀ state, 0 ≤ entry state) → ∀ jointAction,
      ∑ o ∈ Finset.range model.jointObservations,
          ((Belief.tabulate model.states entry).update model.process jointAction o event).1 =
        ∑ state ∈ Finset.range model.states, entry state *
          model.process.outflow event model.jointObservations state jointAction :=
    fun _ nonneg jointAction => DecisionProcess.sum_update sound.regular nonneg jointAction
  constructor
  · intro filters state inside jointAction known
    -- All mass on one state moves on as that state does.
    have listed : ∀ p ∈ (List.range model.states).map (Belief.point state), 0 ≤ p := by
      intro p member
      obtain ⟨other, _, rfl⟩ := List.mem_map.mp member
      exact Belief.point_nonneg state other
    have unit : ((List.range model.states).map (Belief.point state)).sum = 1 :=
      (Finset.sum_ite_eq' (Finset.range model.states) state fun _ => (1 : Rat)).trans
        (if_pos (Finset.mem_range.mpr inside))
    have total := filters _ (by simp) listed unit jointAction known
    rw [← Belief.tabulate, moved _ (Belief.point_nonneg state)] at total
    simpa [Belief.point, inside] using total
  · intro each entries long nonneg unit jointAction known
    have held : ∀ state : Nat, 0 ≤ entries[state]?.getD 0 := Belief.getElem?_nonneg nonneg
    have total : ∑ state ∈ Finset.range model.states, entries[state]?.getD 0 = 1 := by
      rw [← unit, ← long]
      exact congrArg List.sum (Belief.map_range_getElem? entries)
    rw [Belief.dense_eq_tabulate, long, moved _ held]
    refine (convex_Icc _ _).sum_mem (fun state _ => held state) total fun state member => ?_
    exact each state (Finset.mem_range.mp member) jointAction known

theorem validate_eq_ok (valid : model.validate = .ok ()) :
    model.transitions.validate = .ok () ∧
      (model.events.getD model.observations).validate = .ok () := by
  obtain ⟨_, transitions, valid⟩ := bind_eq_ok_iff.mp valid
  obtain ⟨_, observations, _⟩ := bind_eq_ok_iff.mp valid
  exact ⟨transitions, observations⟩

namespace Proper

variable (proper : model.Proper)
include proper

theorem eventRow_eq_ok {events : ProbabilityTable Rat} (present : model.events = some events)
    (inside : state < model.states) (known : jointAction < model.jointActions)
    (arrived : next < model.states) :
    ∃ row, model.eventRow state jointAction next = .ok row ∧
      row < model.states * model.jointActions * model.states := by
  obtain ⟨countable, _⟩ := proper.events events present
  exact ⟨_, Countable.eventRow_eq_ok proper.inhabited countable inside known arrived⟩

theorem transition_sum (valid : model.validate = .ok ()) (inside : state < model.states)
    (known : jointAction < model.jointActions) :
    |∑ next ∈ Finset.range model.states, model.transition state jointAction next - 1| ≤
      Weight.tolerance := by
  obtain ⟨placed, bounded⟩ := proper.sound.row_eq_ok known inside
  simp only [Model.transition, placed]
  refine proper.transitions.validate_eq_ok_iff.mp (validate_eq_ok valid).1 _ ?_
  rwa [proper.sound.rows]

theorem observation_sum (inhabited : 0 < model.jointObservations)
    (valid : model.observations.validate = .ok ()) (known : jointAction < model.jointActions)
    (arrived : next < model.states) :
    |∑ o ∈ Finset.range model.jointObservations, model.observation jointAction next o - 1| ≤
      Weight.tolerance := by
  obtain ⟨placed, bounded⟩ := proper.sound.row_eq_ok known arrived
  simp only [Model.observation, placed]
  refine proper.observations.validate_eq_ok_iff.mp valid _ ?_
  rwa [proper.observations.shaped.rows_eq inhabited]

theorem eventObservation_sum (inhabited : 0 < model.jointObservations)
    (valid : model.validate = .ok ()) (inside : state < model.states)
    (known : jointAction < model.jointActions) (arrived : next < model.states) :
    |∑ o ∈ Finset.range model.jointObservations,
        model.eventObservation state jointAction next o - 1| ≤ Weight.tolerance := by
  obtain ⟨_, used⟩ := validate_eq_ok valid
  cases present : model.events with
  | none =>
      rw [present] at used
      simp only [Model.eventObservation, present]
      exact proper.observation_sum inhabited used known arrived
  | some events =>
      rw [present] at used
      obtain ⟨row, placed, bounded⟩ := proper.eventRow_eq_ok present inside known arrived
      obtain ⟨_, table⟩ := proper.events events present
      simp only [Model.eventObservation, present, placed]
      refine table.validate_eq_ok_iff.mp used _ ?_
      rwa [table.shaped.rows_eq inhabited]

/-- Where the observations that an update reads are those that were validated, a state passes on
about all of its mass. -/
theorem outflow_mem (inhabited : 0 < model.jointObservations) (valid : model.validate = .ok ())
    (read : event = true ∨ model.isEventDriven = false ∨ model.observations.validate = .ok ())
    (inside : state < model.states) (known : jointAction < model.jointActions) :
    model.process.outflow event model.jointObservations state jointAction ∈
      Set.Icc ((1 - Weight.tolerance : Rat) ^ 2) ((1 + Weight.tolerance) ^ 2) := by
  rw [DecisionProcess.outflow_eq]
  refine sum_mul_mem_Icc (le_of_lt Weight.tolerance_lt_one)
    (fun next _ => DecisionProcess.Nonnegative.transition_nonneg proper.sound.regular _ _ _)
    (proper.transition_sum valid inside known) fun next member => ?_
  have arrived : next < model.states := Finset.mem_range.mp member
  cases event with
  | true => exact proper.eventObservation_sum inhabited valid inside known arrived
  | false =>
      refine proper.observation_sum inhabited ?_ known arrived
      rcases read with never | driven | table
      · cases never
      · have used := (validate_eq_ok valid).2
        rw [Model.isEventDriven, Option.isSome_eq_false_iff, Option.isNone_iff_eq_none] at driven
        rwa [driven] at used
      · exact table

end Proper

/-- A validated model filters soundly exactly where every state passes on about all of its mass. If
there is anything to observe, it does so wherever the observations that an update reads sum to one:
with events, without a table of events, or with another table that would be validated as well. -/
theorem filtersSoundly_iff (built : model.Built) (valid : model.validate = .ok ()) (event : Bool) :
    (model.FiltersSoundly event ↔ ∀ state < model.states, ∀ jointAction < model.jointActions,
      ∑ next ∈ Finset.range model.states, model.transition state jointAction next *
          ∑ o ∈ Finset.range model.jointObservations,
            model.process.emission event state jointAction next o ∈ Weight.nearUnit) ∧
      (event = true ∨ model.isEventDriven = false ∨ model.observations.validate = .ok () →
        (model.FiltersSoundly event ↔ 0 < model.jointObservations ∨ model.jointActions = 0)) := by
  have proper := built.proper
  have outflows := proper.sound.filtersSoundly_iff_outflow event
  refine ⟨?_, fun read => outflows.trans ⟨fun each => ?_, fun some => ?_⟩⟩
  · simp only [outflows, DecisionProcess.outflow_eq]
    rfl
  · by_contra none
    -- Without joint observations no update answers with anything.
    obtain ⟨unobserved, acting⟩ := not_or.mp none
    have flows := each 0 proper.inhabited 0 (Nat.pos_of_ne_zero acting)
    have nothing : model.jointObservations = 0 := Nat.eq_zero_of_not_pos unobserved
    have drained : model.process.outflow event model.jointObservations 0 0 = 0 := by
      simp [DecisionProcess.outflow, nothing]
    rw [drained] at flows
    exact Weight.zero_notMem_nearUnit flows
  · intro state inside jointAction known
    rcases some with observed | idle
    · exact proper.outflow_mem observed valid read inside known
    · omega

/-- A model of one state whose only observation is written by event. -/
def seenByEvent : Except Fault (Model Rat) := do
  let blank ← create 1 [⟨1, 1⟩] .dense
  let moving ← blank.writeTransition 0 0 0 1
  return (moving.writeEventObservation 0 0 0 0 1).2

theorem exists_seenByEvent : ∃ model : Model Rat, seenByEvent = .ok model ∧ model.Built ∧
    model.states = 1 ∧ model.jointActions = 1 ∧ model.jointObservations = 1 ∧
      model.validate = .ok () := by
  obtain ⟨model, made⟩ : ∃ model, seenByEvent = .ok model := ⟨_, rfl⟩
  have built : model.Built := by
    obtain ⟨blank, created, made⟩ := bind_eq_ok_iff.mp made
    obtain ⟨moving, written, made⟩ := bind_eq_ok_iff.mp made
    cases made
    exact .event 0 0 0 0 1 (.transition (.created created) written)
  have valid : (seenByEvent >>= Model.validate).toOption = some () := by decide +kernel
  refine ⟨model, made, built, ?_, ?_, ?_, ?_⟩
  · cases made; rfl
  · cases made; rfl
  · cases made; rfl
  · rw [bind_of_eq_ok made] at valid
    exact eq_ok_of_toOption valid

theorem filtersSoundly_iff_event : ∃ model : Model Rat, seenByEvent = .ok model ∧ model.Built ∧
    model.validate = .ok () ∧ model.FiltersSoundly true := by
  obtain ⟨model, made, built, _, _, observed, valid⟩ := exists_seenByEvent
  refine ⟨model, made, built, valid, ?_⟩
  refine ((filtersSoundly_iff built valid true).2 (.inl rfl)).mpr (.inl ?_)
  rw [observed]
  exact one_pos

/-- Told to ignore events, the model loses all mass. -/
theorem validated_loses_mass : ∃ model : Model Rat, seenByEvent = .ok model ∧ model.Built ∧
    model.validate = .ok () ∧ ((Belief.dense [1]).update model.process 0 0 false).1 = 0 ∧
      ¬ model.FiltersSoundly false := by
  obtain ⟨model, made, built, states, acted, observed, valid⟩ := exists_seenByEvent
  have lost : ((Belief.dense [1]).update model.process 0 0 false).1 = 0 := by
    have asked : (seenByEvent.map fun model =>
        ((Belief.dense [1]).update model.process 0 0 false).1).toOption = some 0 := by
      decide +kernel
    rw [made] at asked
    exact Option.some.inj asked
  refine ⟨model, made, built, valid, lost, fun filters => ?_⟩
  have total := filters [1] (by simp [states]) (by simp) (by simp) 0 (by omega)
  rw [observed, Finset.sum_range_one, lost] at total
  exact Weight.zero_notMem_nearUnit total

end Model

end TeamPlanning
