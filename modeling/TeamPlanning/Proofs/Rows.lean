import TeamPlanning.Model.Basic
import TeamPlanning.Proofs.JointSymbols

/-! # Rows of models

The rows of a model are numbered in mixed radix by machine arithmetic. As far as the rows of a table
can be counted, which is checked before the table is made, nothing on the way to the number of a row
exceeds a machine word. -/

set_option autoImplicit false

namespace TeamPlanning.Model

variable {W : Type} {model : Model W} {state jointAction next row : Nat}

theorem row_eq_ok_iff (small : model.jointActions * model.states < wordBound) :
    model.row jointAction state = .ok row ↔
      (jointAction < model.jointActions ∧ state < model.states) ∧
        row = jointAction * model.states + state := by
  unfold Model.row
  by_cases inside : jointAction < model.jointActions ∧ state < model.states
  · have bounded := mul_add_lt inside.1 inside.2
    rw [if_pos inside, Word.mul_of_lt (by omega), Word.add_of_lt (by omega), Except.ok.injEq]
    exact ⟨fun same => ⟨inside, same.symm⟩, fun given => given.2.symm⟩
  · rw [if_neg inside]
    constructor
    · intro found
      cases found
    · exact fun given => absurd given.1 inside

theorem row_lt (small : model.jointActions * model.states < wordBound)
    (found : model.row jointAction state = .ok row) : row < model.jointActions * model.states := by
  obtain ⟨inside, rfl⟩ := (row_eq_ok_iff small).mp found
  exact mul_add_lt inside.1 inside.2

theorem eventRow_isOk_iff :
    (∃ row, model.eventRow state jointAction next = .ok row) ↔
      state < model.states ∧ jointAction < model.jointActions ∧ next < model.states := by
  unfold eventRow
  by_cases here : state < model.states
  · by_cases there : jointAction < model.jointActions ∧ next < model.states
    · simp [here, there, Model.row, bind, Except.bind, pure, Except.pure]
    · simp [here, there, Model.row, bind, Except.bind]
  · simp [here]

/-- The rows by event can be counted. -/
def Countable (model : Model W) : Prop :=
  model.states * model.jointActions * model.states < wordBound

namespace Countable

variable (inhabited : 0 < model.states) (countable : model.Countable)
include inhabited countable

theorem small : model.jointActions * model.states < wordBound :=
  Nat.lt_of_le_of_lt (Nat.mul_le_mul_right _ (Nat.le_mul_of_pos_left _ inhabited)) countable

theorem product_lt (inside : state < model.states) :
    state * model.jointActions < wordBound ∧
      state * model.jointActions * model.states < wordBound := by
  have fewer : state * model.jointActions ≤ state * model.jointActions * model.states :=
    Nat.le_mul_of_pos_right _ inhabited
  have later : state * model.jointActions * model.states ≤
      model.states * model.jointActions * model.states :=
    Nat.mul_le_mul_right _ (Nat.mul_le_mul_right _ (Nat.le_of_lt inside))
  have bounded : model.states * model.jointActions * model.states < wordBound := countable
  exact ⟨by omega, by omega⟩

theorem eventRow_eq_ok (inside : state < model.states) (known : jointAction < model.jointActions)
    (arrived : next < model.states) :
    model.eventRow state jointAction next =
        .ok (state * model.jointActions * model.states + (jointAction * model.states + next)) ∧
      state * model.jointActions * model.states + (jointAction * model.states + next) <
        model.states * model.jointActions * model.states := by
  have placed := (row_eq_ok_iff (countable.small inhabited)).mpr ⟨⟨known, arrived⟩, rfl⟩
  have below := mul_add_lt inside (mul_add_lt known arrived)
  rw [← Nat.mul_assoc, ← Nat.mul_assoc] at below
  obtain ⟨first, second⟩ := countable.product_lt inhabited inside
  refine ⟨?_, below⟩
  rw [eventRow, if_pos inside, bind_of_eq_ok placed, Word.mul_of_lt first, Word.mul_of_lt second,
    Word.add_of_lt (Nat.lt_trans below countable)]
  rfl

theorem eventRow_eq_ok_iff :
    model.eventRow state jointAction next = .ok row ↔
      (state < model.states ∧ jointAction < model.jointActions ∧ next < model.states) ∧
        row = state * model.jointActions * model.states +
          (jointAction * model.states + next) := by
  constructor
  · intro found
    have known := eventRow_isOk_iff.mp ⟨row, found⟩
    obtain ⟨placed, _⟩ := countable.eventRow_eq_ok inhabited known.1 known.2.1 known.2.2
    exact ⟨known, Except.ok.inj (found.symm.trans placed)⟩
  · intro given
    obtain ⟨known, rfl⟩ := given
    exact (countable.eventRow_eq_ok inhabited known.1 known.2.1 known.2.2).1

theorem eventRow_lt (found : model.eventRow state jointAction next = .ok row) :
    row < model.states * model.jointActions * model.states := by
  obtain ⟨known, rfl⟩ := (countable.eventRow_eq_ok_iff inhabited).mp found
  exact (countable.eventRow_eq_ok inhabited known.1 known.2.1 known.2.2).2

end Countable

/-! ## Where tables are made -/

variable [Weight W]

theorem create_eq_ok {states : Nat} {alphabets : List Alphabet} {storage : Storage}
    (created : create states alphabets storage = .ok model) :
    0 < states ∧ ∃ joint transitions observations, Alphabet.joint alphabets = .ok joint ∧
      joint.actions * states < wordBound ∧
        ProbabilityTable.create storage (joint.actions * states) states = .ok transitions ∧
          ProbabilityTable.create storage (joint.actions * states) joint.observations =
              .ok observations ∧
            model = {
              states, alphabets, transitions, observations
              jointActions := joint.actions
              jointObservations := joint.observations
              events := none
              initial := List.replicate states (Weight.one / Weight.ofNat states) } := by
  unfold create at created
  split at created
  · cases created
  · rename_i inhabited
    obtain ⟨joint, joined, created⟩ := bind_eq_ok_iff.mp created
    obtain ⟨rows, counted, created⟩ := bind_eq_ok_iff.mp created
    obtain ⟨transitions, first, created⟩ := bind_eq_ok_iff.mp created
    obtain ⟨observations, second, created⟩ := bind_eq_ok_iff.mp created
    cases created
    obtain ⟨product, small⟩ := Bounded.prod_eq_ok counted
    obtain rfl : rows = joint.actions * states := by simpa using product
    exact ⟨Nat.pos_of_ne_zero (not_or.mp inhabited).1, joint, transitions, observations, joined,
      small, first, second, rfl⟩

/-- Events are written to the table that there is, or else to a blank one, once the rows are counted. -/
theorem openEvents_eq_ok {events : ProbabilityTable W}
    (opened : model.openEvents state jointAction next = .ok (events, row)) :
    Bounded.prod [model.states, model.jointActions, model.states] =
        .ok (model.states * model.jointActions * model.states) ∧
      model.Countable ∧ model.eventRow state jointAction next = .ok row ∧
        (model.events = some events ∨ model.events = none ∧
          ProbabilityTable.create model.storage (model.states * model.jointActions * model.states)
            model.jointObservations = .ok events) := by
  obtain ⟨rows, counted, opened⟩ := bind_eq_ok_iff.mp opened
  obtain ⟨place, placed, opened⟩ := bind_eq_ok_iff.mp opened
  obtain ⟨product, countable⟩ := Bounded.prod_eq_ok counted
  obtain rfl : rows = model.states * model.jointActions * model.states := by
    simpa [Nat.mul_assoc] using product
  refine ⟨counted, countable, ?_⟩
  cases present : model.events with
  | some held =>
      rw [present] at opened
      cases opened
      exact ⟨placed, .inl rfl⟩
  | none =>
      rw [present] at opened
      obtain ⟨blank, created, opened⟩ := bind_eq_ok_iff.mp opened
      cases opened
      exact ⟨placed, .inr ⟨rfl, created⟩⟩

theorem validate_eq_ok_iff : model.validate = .ok () ↔
    model.transitions.validate = .ok () ∧
      (model.events.getD model.observations).validate = .ok () ∧
        Weight.strays (Weight.sum model.initial) = false ∧
          ∀ p ∈ model.initial, Weight.lt p Weight.zero = false := by
  unfold validate
  constructor
  · intro valid
    obtain ⟨_, transitions, valid⟩ := bind_eq_ok_iff.mp valid
    obtain ⟨_, observations, valid⟩ := bind_eq_ok_iff.mp valid
    refine ⟨transitions, observations, ?_⟩
    dsimp only at valid
    split at valid
    · cases valid
    · rename_i sound
      simpa using sound
  · intro given
    obtain ⟨transitions, observations, sound⟩ := given
    refine (bind_of_eq_ok transitions _).trans ((bind_of_eq_ok observations _).trans (if_neg ?_))
    simpa using sound

end TeamPlanning.Model
