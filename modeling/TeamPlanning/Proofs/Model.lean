import TeamPlanning.Model.Random
import TeamPlanning.Proofs.Forward
import TeamPlanning.Proofs.Rows
import TeamPlanning.Proofs.Table

/-! # Models as decision processes

However a model was built, its tables hold probabilities in the shapes that its states and joint
symbols ask for, and the successors that it lists are those of its transition table. -/

set_option autoImplicit false

namespace TeamPlanning.Model

/-- The model was created blank or at random, and written since. A write that is refused may still
turn the model to events. -/
inductive Built : Model Rat → Prop where
  | created {states : Nat} {alphabets : List Alphabet} {storage : Storage} {model : Model Rat}
      (made : create states alphabets storage = .ok model) : Built model
  | drawn {states : Nat} {alphabets : List Alphabet} {storage : Storage} {draws : Nat → Nat}
      {model : Model Rat} (made : random states alphabets storage draws = .ok model) : Built model
  | transition {model next : Model Rat} {state jointAction successor : Nat} {p : Rat}
      (built : Built model)
      (written : model.writeTransition state jointAction successor p = .ok next) : Built next
  | observation {model next : Model Rat} {jointAction successor jointObservation : Nat} {p : Rat}
      (built : Built model)
      (written : model.writeObservation jointAction successor jointObservation p = .ok next) :
      Built next
  | event {model : Model Rat} (state jointAction successor jointObservation : Nat) (p : Rat)
      (built : Built model) :
      Built (model.writeEventObservation state jointAction successor jointObservation p).2
  | initial {model next : Model Rat} {distribution : List Rat} (built : Built model)
      (written : model.writeInitial distribution = .ok next) : Built next

/-- The tables hold probabilities, with a row of transitions for every joint action and state. -/
structure Sound (model : Model Rat) : Prop where
  joint : Alphabet.joint model.alphabets = .ok ⟨model.jointActions, model.jointObservations⟩
  small : model.jointActions * model.states < wordBound
  rows : model.transitions.rows = model.jointActions * model.states
  transitions : model.transitions.Sound
  observations : model.observations.Sound
  events : ∀ events, model.events = some events → events.Sound
  initial : model.initial.length = model.states

/-- The tables hold probabilities in the shapes that the states and the joint symbols ask for. -/
structure Proper (model : Model Rat) : Prop where
  joint : Alphabet.joint model.alphabets = .ok ⟨model.jointActions, model.jointObservations⟩
  small : model.jointActions * model.states < wordBound
  inhabited : 0 < model.states
  transitions : model.transitions.Proper (model.jointActions * model.states) model.states
  observations :
    model.observations.Proper (model.jointActions * model.states) model.jointObservations
  events : ∀ events, model.events = some events →
    model.states * model.jointActions * model.states < wordBound ∧
      events.Proper (model.states * model.jointActions * model.states) model.jointObservations
  initial : model.initial.length = model.states

theorem Proper.sound {model : Model Rat} (proper : model.Proper) : model.Sound where
  joint := proper.joint
  small := proper.small
  rows := proper.transitions.shaped.rows_eq proper.inhabited
  transitions := proper.transitions.sound
  observations := proper.observations.sound
  events := fun events present => (proper.events events present).2.sound
  initial := proper.initial

theorem create_proper {states : Nat} {alphabets : List Alphabet} {storage : Storage}
    {model : Model Rat} (created : create states alphabets storage = .ok model) :
    model.Proper ∧ model.states = states := by
  obtain ⟨inhabited, _, _, _, joined, small, first, second, rfl⟩ := create_eq_ok created
  refine ⟨?_, rfl⟩
  constructor
  case joint => exact joined
  case small => exact small
  case inhabited => exact inhabited
  case transitions => exact ProbabilityTable.create_proper first
  case observations => exact ProbabilityTable.create_proper second
  case events => intro events present; cases present
  case initial => simp

theorem fillRow_proper {table table' : ProbabilityTable Rat} {rows cols row : Nat}
    {distribution : List Rat} (proper : table.Proper rows cols)
    (filled : fillRow table row distribution = .ok table') : table'.Proper rows cols :=
  foldlM_keeps (ProbabilityTable.Proper rows cols)
    (fun _ _ _ proper written => ProbabilityTable.set_proper proper written) proper filled

theorem fillRows_proper {draws : Nat → Nat} {model next : Model Rat} {row : Nat}
    (proper : model.Proper) (filled : fillRows draws model row = .ok next) :
    next.Proper ∧ next.states = model.states := by
  obtain ⟨transitions, first, filled⟩ := bind_eq_ok_iff.mp filled
  obtain ⟨observations, second, filled⟩ := bind_eq_ok_iff.mp filled
  cases filled
  exact ⟨{ proper with
    transitions := fillRow_proper proper.transitions first
    observations := fillRow_proper proper.observations second }, rfl⟩

theorem random_proper {states : Nat} {alphabets : List Alphabet} {storage : Storage}
    {draws : Nat → Nat} {model : Model Rat}
    (drawn : random states alphabets storage draws = .ok model) : model.Proper := by
  obtain ⟨blank, created, drawn⟩ := bind_eq_ok_iff.mp drawn
  obtain ⟨filled, folded, drawn⟩ := bind_eq_ok_iff.mp drawn
  cases drawn
  have proper : filled.Proper ∧ filled.states = states :=
    foldlM_keeps (fun model => model.Proper ∧ model.states = states)
      (fun _ _ _ held written => by
        obtain ⟨proper, same⟩ := fillRows_proper held.1 written
        exact ⟨proper, same.trans held.2⟩) (create_proper created) folded
  obtain ⟨proper, same⟩ := proper
  exact { proper with initial := by simp [distribution, same] }

theorem openEvents_proper {model : Model Rat} (proper : model.Proper)
    {state jointAction next row : Nat} {events : ProbabilityTable Rat}
    (opened : model.openEvents state jointAction next = .ok (events, row)) :
    model.states * model.jointActions * model.states < wordBound ∧
      events.Proper (model.states * model.jointActions * model.states) model.jointObservations := by
  obtain ⟨_, countable, _, present | ⟨_, created⟩⟩ := openEvents_eq_ok opened
  · exact proper.events _ present
  · exact ⟨countable, ProbabilityTable.create_proper created⟩

theorem Built.proper {model : Model Rat} (built : model.Built) : model.Proper := by
  induction built with
  | created made => exact (create_proper made).1
  | drawn made => exact random_proper made
  | transition _ written ih =>
      obtain ⟨row, _, written⟩ := bind_eq_ok_iff.mp written
      obtain ⟨table, set, written⟩ := bind_eq_ok_iff.mp written
      cases written
      exact { ih with transitions := ProbabilityTable.set_proper ih.transitions set }
  | observation _ written ih =>
      obtain ⟨row, _, written⟩ := bind_eq_ok_iff.mp written
      obtain ⟨table, set, written⟩ := bind_eq_ok_iff.mp written
      cases written
      exact { ih with observations := ProbabilityTable.set_proper ih.observations set }
  | @event model state jointAction successor jointObservation p _ ih =>
      rw [writeEventObservation]
      cases opened : model.openEvents state jointAction successor with
      | error fault => exact ih
      | ok place =>
          obtain ⟨events, row⟩ := place
          obtain ⟨small, proper⟩ := openEvents_proper ih opened
          cases written : events.set row jointObservation p with
          | error fault =>
              simp only [written]
              exact { ih with
                events := fun held present => Option.some.inj present ▸ ⟨small, proper⟩ }
          | ok events' =>
              simp only [written]
              exact { ih with
                events := fun held present => Option.some.inj present ▸
                  ⟨small, ProbabilityTable.set_proper proper written⟩ }
  | initial _ written ih =>
      rw [writeInitial] at written
      split at written
      · rename_i long
        cases written
        exact { ih with initial := long }
      · cases written

theorem Built.sound {model : Model Rat} (built : model.Built) : model.Sound := built.proper.sound

/-! ## The process of a model -/

theorem initial_nonneg {model : Model Rat} (nonneg : ∀ p ∈ model.initial, 0 ≤ p) (state : Nat) :
    0 ≤ model.process.initial state :=
  Belief.getElem?_nonneg nonneg state

/-- The distributions in use are complete: the initial one, every row of transitions, and the row of
observations of every transition that can happen. -/
@[mk_iff]
structure Stochastic (model : Model Rat) (event : Bool) : Prop where
  nonneg : ∀ p ∈ model.initial, 0 ≤ p
  initial : model.initial.sum = 1
  transition : ∀ state < model.states, ∀ jointAction < model.jointActions,
    ∑ next ∈ Finset.range model.states, model.transition state jointAction next = 1
  observation : ∀ state < model.states, ∀ jointAction < model.jointActions,
    ∀ next < model.states, model.transition state jointAction next ≠ 0 →
      ∑ o ∈ Finset.range model.jointObservations,
        model.process.emission event state jointAction next o = 1

instance (model : Model Rat) (event : Bool) : Decidable (model.Stochastic event) :=
  decidable_of_iff _ (model.stochastic_iff event).symm

namespace Sound

variable {model : Model Rat} (sound : model.Sound)
include sound

theorem row_eq_ok {jointAction state : Nat} (known : jointAction < model.jointActions)
    (inside : state < model.states) :
    model.row jointAction state = .ok (jointAction * model.states + state) ∧
      jointAction * model.states + state < model.jointActions * model.states :=
  ⟨(row_eq_ok_iff sound.small).mpr ⟨⟨known, inside⟩, rfl⟩, mul_add_lt known inside⟩

theorem row_lt {jointAction state row : Nat} (found : model.row jointAction state = .ok row) :
    row < model.transitions.rows := by
  rw [sound.rows]
  exact Model.row_lt sound.small found

theorem observation_nonneg (jointAction next jointObservation : Nat) :
    0 ≤ model.observation jointAction next jointObservation := by
  rw [Model.observation]
  split
  · exact (ProbabilityTable.cell_probability sound.observations _ _).1
  · exact le_refl 0

theorem eventObservation_nonneg (state jointAction next jointObservation : Nat) :
    0 ≤ model.eventObservation state jointAction next jointObservation := by
  rw [Model.eventObservation]
  split
  · exact sound.observation_nonneg jointAction next jointObservation
  · rename_i events present
    split
    · exact (ProbabilityTable.cell_probability (sound.events events present) _ _).1
    · exact le_refl 0

theorem successors_nonneg (state jointAction : Nat) :
    ∀ entry ∈ model.successors state jointAction, 0 ≤ entry.2 := by
  rw [Model.successors]
  split
  · exact ProbabilityTable.row_nonneg sound.transitions _
  · exact List.forall_mem_nil _

theorem gathered_successors (state jointAction next : Nat) :
    Sparse.gathered (model.successors state jointAction) next =
      model.transition state jointAction next := by
  rw [Model.successors, Model.transition]
  cases found : model.row jointAction state with
  | error fault => rfl
  | ok row => exact ProbabilityTable.gathered_row sound.transitions (sound.row_lt found) next

theorem regular : model.process.Regular where
  successors := sound.successors_nonneg
  observation := sound.observation_nonneg
  eventObservation := sound.eventObservation_nonneg
  listed := sound.gathered_successors

theorem map_initial : (List.range model.states).map model.process.initial = model.initial := by
  rw [← sound.initial]
  exact Belief.map_range_getElem? model.initial

theorem initial_sum :
    ∑ state ∈ Finset.range model.process.states, model.process.initial state =
      model.initial.sum :=
  congrArg List.sum sound.map_initial

theorem actionSizes_prod : model.process.actionSizes.prod = model.jointActions := by
  have sizes : model.process.actionSizes = model.alphabets.map (·.actions) := by
    refine List.ext_getElem (by simp [DecisionProcess.actionSizes, process, dynamics,
      Dynamics.process]) fun agent _ inside => ?_
    rw [List.length_map] at inside
    simp [DecisionProcess.actionSizes, process, dynamics, Dynamics.process, inside]
  rw [sizes]
  exact (Alphabet.joint_eq_ok sound.joint).1.1.symm

end Sound

end TeamPlanning.Model
