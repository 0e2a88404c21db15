import Mathlib.Algebra.BigOperators.Ring.List
import Mathlib.Algebra.Order.BigOperators.GroupWithZero.List
import TeamPlanning.Proofs.Model
import TeamPlanning.Proofs.Storage.Keys

/-! # Random models are models

Whatever is drawn, every row of a random model and its initial distribution are distributions in
which every outcome is possible. The rows are filled once each, action by action and in each action state by
state, with the draws in the order in which they come. -/

set_option autoImplicit false

namespace TeamPlanning

/-! ## Rows of tables -/

namespace ProbabilityTable.Framed

variable {table : ProbabilityTable Rat} {storage : Storage} {rows cols row col : Nat} {p : Rat}
  (framed : table.Framed rows cols storage)
include framed

theorem exists_set (inside : row < rows) (within : col < cols) (probable : 0 ≤ p ∧ p ≤ 1) :
    ∃ table', table.set row col p = .ok table' := by
  have high := framed.rows_eq (Nat.zero_lt_of_lt within)
  have wide := framed.cols_eq
  have accepted := (isProbability_iff p).mpr probable
  unfold set
  rw [if_neg (by omega), accepted]
  cases framed with
  | dense filled small =>
      obtain ⟨placed, _⟩ := position_eq_ok small inside within
      exact ⟨_, bind_of_eq_ok placed _⟩
  | sparse => exact ⟨_, rfl⟩

/-- Probabilities that are written side by side, from some column on, are all that changes. -/
theorem exists_fill (inside : row < rows) {distribution : List Rat} {first : Nat}
    (fits : first + distribution.length ≤ cols) (probable : ∀ p ∈ distribution, 0 ≤ p ∧ p ≤ 1) :
    ∃ table', (distribution.zipIdx first).foldlM (fun table (p, col) => table.set row col p) table =
        .ok table' ∧ table'.Framed rows cols storage ∧
      ∀ row' < rows, ∀ col, table'.cell row' col =
        if row = row' ∧ first ≤ col then distribution[col - first]?.getD (table.cell row' col)
        else table.cell row' col := by
  induction distribution generalizing table first with
  | nil => exact ⟨table, rfl, framed, fun _ _ _ => by simp⟩
  | cons p distribution ih =>
      obtain ⟨probable, others⟩ := List.forall_mem_cons.mp probable
      rw [List.length_cons] at fits
      obtain ⟨table', written⟩ := framed.exists_set inside (by omega : first < cols) probable
      obtain ⟨_, framed', changed⟩ := framed.set_eq_ok written
      obtain ⟨table'', filled, framed'', held⟩ :=
        ih framed' (by omega : first + 1 + _ ≤ cols) others
      refine ⟨table'', ?_, framed'', fun row' inside' col => ?_⟩
      · rw [List.zipIdx_cons, List.foldlM_cons, bind_of_eq_ok written]
        exact filled
      · rw [held row' inside' col, changed row' inside' col, Storage.keep_rat]
        by_cases here : row = row'
        · rcases Nat.lt_trichotomy col first with before | rfl | after
          · simp [here, Nat.not_le_of_lt before, Nat.ne_of_gt before,
              Nat.not_le_of_lt (Nat.lt_succ_of_lt before)]
          · simp [here]
          · obtain ⟨steps, rfl⟩ := Nat.exists_eq_add_of_lt after
            have place : first + steps + 1 - first = steps + 1 := by omega
            have place' : first + steps + 1 - (first + 1) = steps := by omega
            simp [here, place, place', show first + 1 ≤ first + steps + 1 by omega,
              show first ≤ first + steps + 1 by omega, show first ≠ first + steps + 1 by omega]
        · simp [here]

end ProbabilityTable.Framed

namespace Model

/-- A whole row of probabilities, which then holds them and nothing else; other rows stay. -/
theorem exists_fillRow {table : ProbabilityTable Rat} {storage : Storage} {rows cols row : Nat}
    {distribution : List Rat} (framed : table.Framed rows cols storage) (inside : row < rows)
    (probable : ∀ p ∈ distribution, 0 ≤ p ∧ p ≤ 1) (long : distribution.length = cols) :
    ∃ table', fillRow table row distribution = .ok table' ∧ table'.Framed rows cols storage ∧
      ∀ row' < rows, ∀ col, table'.cell row' col =
        if row = row' then distribution[col]?.getD 0 else table.cell row' col := by
  obtain ⟨table', filled, framed', held⟩ :=
    framed.exists_fill inside (by omega : 0 + distribution.length ≤ cols) probable
  refine ⟨table', filled, framed', fun row' inside' col => ?_⟩
  by_cases here : row = row'
  · by_cases within : col < cols
    · rw [held row' inside' col, if_pos ⟨here, Nat.zero_le col⟩, if_pos here, Nat.sub_zero,
        List.getElem?_eq_getElem (long ▸ within), Option.getD_some, Option.getD_some]
    · rw [if_pos here, List.getElem?_eq_none (by omega)]
      exact ProbabilityTable.cell_of_get (framed'.get_beyond (Nat.le_of_not_lt within))
  · rw [held row' inside' col, if_neg (fun given => here given.1), if_neg here]

/-! ## Distributions from draws -/

/-- Every outcome is possible, and the probabilities sum to one. -/
structure Full (distribution : List Rat) : Prop where
  pos : ∀ p ∈ distribution, 0 < p
  sum : distribution.sum = 1

theorem Full.probable {distribution : List Rat} (full : Full distribution) :
    ∀ p ∈ distribution, 0 ≤ p ∧ p ≤ 1 := by
  have nonneg : ∀ p ∈ distribution, 0 ≤ p := fun p member => (full.pos p member).le
  exact fun p member => ⟨nonneg p member, full.sum ▸ List.single_le_sum nonneg p member⟩

theorem length_distribution (draws : Nat → Nat) (start size : Nat) :
    (distribution draws start size : List Rat).length = size := by
  simp [distribution]

/-- A draw of zero leaves a tenth of weight, so that the sum of the weights can be divided by. -/
theorem distribution_full (draws : Nat → Nat) (start : Nat) {size : Nat} (inhabited : 0 < size) :
    Full (distribution draws start size) := by
  let weights : List Rat := (List.range size).map fun i =>
    uniform (draws (start + i)) + Weight.one / Weight.ofNat 10
  have heavy : ∀ w ∈ weights, 0 < w := by
    intro w member
    obtain ⟨i, _, rfl⟩ := List.mem_map.mp member
    have drawn : (0 : Rat) ≤ uniform (draws (start + i)) :=
      div_nonneg (Nat.cast_nonneg _) (Nat.cast_nonneg _)
    have tenth : (0 : Rat) < Weight.one / Weight.ofNat 10 := by decide +kernel
    exact add_pos_of_nonneg_of_pos drawn tenth
  have total : 0 < weights.sum :=
    List.sum_pos _ heavy (by simp [weights, Nat.ne_of_gt inhabited])
  have shares : (distribution draws start size : List Rat) = weights.map (· / weights.sum) := by
    rw [← Weight.sum_eq]
    rfl
  rw [shares]
  constructor
  case pos =>
    intro p member
    obtain ⟨w, listed, rfl⟩ := List.mem_map.mp member
    exact div_pos (heavy w listed) total
  case sum =>
    simp only [div_eq_mul_inv, List.sum_map_mul_right, List.map_id']
    exact mul_inv_cancel₀ total.ne'

/-! ## The rows of a model -/

variable {draws : Nat → Nat} {storage : Storage} {blank : Model Rat}
  {transitions observations : ProbabilityTable Rat} {count : Nat}

/-- How many draws the rows of transitions and of observations with the same number take. -/
def stride (model : Model Rat) : Nat := model.states + model.jointObservations

/-- The first rows hold what was drawn for them. -/
structure Filled (draws : Nat → Nat) (storage : Storage) (blank : Model Rat) (count : Nat)
    (transitions observations : ProbabilityTable Rat) : Prop where
  framed : { blank with transitions, observations }.Framed storage
  transition : ∀ row < count, ∀ col, transitions.cell row col =
    (distribution draws (row * blank.stride) blank.states)[col]?.getD 0
  observation : ∀ row < count, ∀ col, observations.cell row col =
    (distribution draws (row * blank.stride + blank.states) blank.jointObservations)[col]?.getD 0

/-- With one more row filled, one more holds what it should. -/
theorem cell_of_fill {rows : Nat} {table table' : ProbabilityTable Rat} {held : Nat → List Rat}
    (inside : count < rows)
    (before : ∀ row < count, ∀ col, table.cell row col = (held row)[col]?.getD 0)
    (changed : ∀ row < rows, ∀ col, table'.cell row col =
      if count = row then (held count)[col]?.getD 0 else table.cell row col) :
    ∀ row < count + 1, ∀ col, table'.cell row col = (held row)[col]?.getD 0 := by
  intro row below col
  rw [changed row (by omega) col]
  split
  · rename_i here
    rw [here]
  · exact before row (by omega) col

/-- The next row of both tables is filled, and those before it are kept. -/
theorem Filled.step (filled : Filled draws storage blank count transitions observations)
    (observant : 0 < blank.jointObservations)
    (inside : count < blank.jointActions * blank.states) :
    ∃ transitions' observations',
      fillRows draws { blank with transitions, observations } count =
        .ok { blank with transitions := transitions', observations := observations' } ∧
      Filled draws storage blank (count + 1) transitions' observations' := by
  obtain ⟨transitions', first, framed, changed⟩ := exists_fillRow filled.framed.transitions inside
    (distribution_full draws (count * blank.stride) filled.framed.inhabited).probable
    (length_distribution ..)
  obtain ⟨observations', second, framed', changed'⟩ := exists_fillRow filled.framed.observations
    inside (distribution_full draws (count * blank.stride + blank.states) observant).probable
    (length_distribution ..)
  refine ⟨transitions', observations', ?_, ?_⟩
  · exact (bind_of_eq_ok first _).trans (bind_of_eq_ok second _)
  · exact {
      framed := { filled.framed with transitions := framed, observations := framed' }
      transition := cell_of_fill inside filled.transition changed
      observation := cell_of_fill inside filled.observation changed' }

/-- The rows are filled one after the other, up to the last one. -/
theorem exists_filled (framed : blank.Framed storage) (observant : 0 < blank.jointObservations)
    (draws : Nat → Nat) {count : Nat} (within : count ≤ blank.jointActions * blank.states) :
    ∃ transitions observations,
      (List.range count).foldlM (fillRows draws) blank =
        .ok { blank with transitions, observations } ∧
      Filled draws storage blank count transitions observations := by
  induction count with
  | zero =>
      refine ⟨blank.transitions, blank.observations, rfl, framed, ?_, ?_⟩
      · exact fun _ below => absurd below (Nat.not_lt_zero _)
      · exact fun _ below => absurd below (Nat.not_lt_zero _)
  | succ count ih =>
      obtain ⟨_, _, run, filled⟩ := ih (by omega)
      obtain ⟨transitions, observations, last, filled⟩ := filled.step observant (by omega)
      refine ⟨transitions, observations, ?_, filled⟩
      rw [List.range_succ, List.foldlM_append, bind_of_eq_ok run, List.foldlM_cons,
        bind_of_eq_ok last]
      rfl

/-! ## Random models -/

/-- The model holds what was drawn for it: the rows of a joint action and a state, in this order,
and the initial distribution at last. Under every key that it does not have it answers zero. -/
structure Holds (draws : Nat → Nat) (model : Model Rat) : Prop where
  plain : model.isEventDriven = false
  transition : ∀ state jointAction next, model.transition state jointAction next =
    if jointAction < model.jointActions ∧ state < model.states then
      (distribution draws ((jointAction * model.states + state) * model.stride)
        model.states)[next]?.getD 0
    else 0
  observation : ∀ jointAction next jointObservation,
    model.observation jointAction next jointObservation =
    if jointAction < model.jointActions ∧ next < model.states then
      (distribution draws ((jointAction * model.states + next) * model.stride + model.states)
        model.jointObservations)[jointObservation]?.getD 0
    else 0
  initial : model.initial =
    distribution draws (model.jointActions * model.states * model.stride) model.states

/-- What is looked up in a row by its number. -/
theorem look_row {model : Model Rat} {table : ProbabilityTable Rat} {held : Nat → List Rat}
    (small : model.jointActions * model.states < wordBound)
    (filled : ∀ row < model.jointActions * model.states, ∀ col,
      table.cell row col = (held row)[col]?.getD 0)
    (jointAction state col : Nat) :
    table.look (model.row jointAction state) col =
      if jointAction < model.jointActions ∧ state < model.states then
        (held (jointAction * model.states + state))[col]?.getD 0
      else 0 := by
  split
  · rename_i known
    have found := (row_eq_ok_iff small).mpr ⟨known, rfl⟩
    rw [found]
    exact filled _ (mul_add_lt known.1 known.2) col
  · rename_i unknown
    rw [Model.row, if_neg unknown]
    rfl

theorem map_range_eq {size : Nat} {held : List Rat} {entry : Nat → Rat} (long : held.length = size)
    (each : ∀ col, entry col = held[col]?.getD 0) : (List.range size).map entry = held := by
  subst long
  exact (List.map_congr_left fun col _ => each col).trans (Belief.map_range_getElem? held)

theorem validate_of_full {rows cols : Nat} {table : ProbabilityTable Rat} {held : Nat → List Rat}
    (proper : table.Proper rows cols) (framed : table.Framed rows cols storage)
    (filled : ∀ row < rows, ∀ col, table.cell row col = (held row)[col]?.getD 0)
    (full : ∀ row, Full (held row)) (long : ∀ row, (held row).length = cols) :
    table.validate = .ok () := by
  refine proper.validate_eq_ok_iff.mpr fun row inside => ?_
  have total : ∑ col ∈ Finset.range cols, table.cell row col = (held row).sum :=
    congrArg List.sum (map_range_eq (long row) (filled row (inside.trans_le framed.rows_le)))
  rw [total, (full row).sum, sub_self, abs_zero]
  exact Weight.tolerance_pos.le

theorem Full.passes {distribution : List Rat} (full : Full distribution) :
    Weight.strays (Weight.sum distribution) = false ∧
      ∀ p ∈ distribution, Weight.lt p Weight.zero = false := by
  constructor
  · rw [Weight.strays_eq_false_iff, Weight.sum_eq, full.sum, sub_self, abs_zero]
    exact Weight.tolerance_pos.le
  · intro p member
    rw [← Bool.not_eq_true, Weight.lt_iff, Weight.zero_eq, not_lt]
    exact (full.pos p member).le

namespace Holds

variable {model other : Model Rat} (holds : model.Holds draws)
include holds

theorem transition_full {state jointAction : Nat} (inside : state < model.states)
    (known : jointAction < model.jointActions) :
    Full ((List.range model.states).map (model.transition state jointAction)) := by
  have row := map_range_eq (length_distribution draws _ model.states) fun next =>
    (holds.transition state jointAction next).trans (if_pos ⟨known, inside⟩)
  exact row ▸ distribution_full draws _ (Nat.zero_lt_of_lt inside)

theorem observation_full {jointAction next : Nat} (known : jointAction < model.jointActions)
    (inside : next < model.states) (observant : 0 < model.jointObservations) :
    Full ((List.range model.jointObservations).map (model.observation jointAction next)) := by
  have row := map_range_eq (length_distribution draws _ model.jointObservations) fun o =>
    (holds.observation jointAction next o).trans (if_pos ⟨known, inside⟩)
  exact row ▸ distribution_full draws _ observant

/-- Whatever the storage, what a model holds is settled by the draws and the numbers. -/
theorem same (holds' : other.Holds draws) (states : other.states = model.states)
    (jointActions : other.jointActions = model.jointActions)
    (jointObservations : other.jointObservations = model.jointObservations) :
    other.transition = model.transition ∧ other.observation = model.observation ∧
      other.eventObservation = model.eventObservation ∧ other.initial = model.initial := by
  have stride : other.stride = model.stride := by
    rw [Model.stride, Model.stride, states, jointObservations]
  have observed : other.observation = model.observation := by
    funext jointAction next jointObservation
    rw [holds.observation, holds'.observation, states, jointActions, jointObservations, stride]
  refine ⟨?_, observed, ?_, ?_⟩
  · funext state jointAction next
    rw [holds.transition, holds'.transition, states, jointActions, stride]
  · funext state jointAction next jointObservation
    rw [eventObservation_of_plain holds.plain, eventObservation_of_plain holds'.plain, observed]
  · rw [holds.initial, holds'.initial, states, jointActions, stride]

end Holds

theorem jointObservations_pos {alphabets : List Alphabet} {joint : Alphabet}
    (joined : Alphabet.joint alphabets = .ok joint)
    (observed : ∀ alphabet ∈ alphabets, 0 < alphabet.observations) : 0 < joint.observations := by
  obtain ⟨_, product, _⟩ := Alphabet.joint_eq_ok joined
  rw [product]
  exact List.prod_pos (List.forall_mem_map.mpr observed)

theorem exists_random {states : Nat} {alphabets : List Alphabet} (draws : Nat → Nat)
    (observed : ∀ alphabet ∈ alphabets, 0 < alphabet.observations)
    (created : create states alphabets storage = .ok blank) :
    ∃ model : Model Rat, random states alphabets storage draws = .ok model ∧ model.Holds draws ∧
      model.states = states ∧
      Alphabet.joint alphabets = .ok ⟨model.jointActions, model.jointObservations⟩ ∧
      model.validate = .ok () := by
  have kept : blank.events = none ∧ blank.alphabets = alphabets := by
    obtain ⟨_, _, _, _, _, _, _, _, rfl⟩ := create_eq_ok created
    exact ⟨rfl, rfl⟩
  obtain ⟨absent, rfl⟩ := kept
  obtain ⟨proper, rfl⟩ := create_proper created
  have observant : 0 < blank.jointObservations := jointObservations_pos proper.joint observed
  obtain ⟨transitions, observations, run, filled⟩ :=
    exists_filled (framed_of_create created) observant draws (Nat.le_refl _)
  let model : Model Rat := { blank with
    transitions, observations
    initial := distribution draws (blank.jointActions * blank.states * blank.stride) blank.states }
  have drawn : random blank.states blank.alphabets storage draws = .ok model :=
    (bind_of_eq_ok created _).trans (bind_of_eq_ok run _)
  have proper' : model.Proper := random_proper drawn
  refine ⟨model, drawn, ?_, rfl, proper.joint, ?_⟩
  · constructor
    case plain => simp [model, isEventDriven, absent]
    case initial => rfl
    case transition =>
      intro state jointAction next
      exact look_row filled.framed.small filled.transition jointAction state next
    case observation =>
      intro jointAction next jointObservation
      exact look_row filled.framed.small filled.observation jointAction next jointObservation
  · refine validate_eq_ok_iff.mpr ⟨?_, ?_, (distribution_full draws _ proper.inhabited).passes⟩
    · exact validate_of_full proper'.transitions filled.framed.transitions filled.transition
        (fun _ => distribution_full draws _ proper.inhabited) fun _ => length_distribution ..
    · have plain : model.events.getD model.observations = observations := by simp [model, absent]
      rw [plain]
      exact validate_of_full proper'.observations filled.framed.observations filled.observation
        (fun _ => distribution_full draws _ observant) fun _ => length_distribution ..

/-! ## Draws in order -/

section InOrder

variable {W : Type} [Weight W]

/-- Fills the rows with the given number from the draws that come next. -/
def drawRows (draws : Nat → Nat) : Model W × Nat → Nat → Except Fault (Model W × Nat)
  | (model, used), row => do
      let transitions ← fillRow model.transitions row (distribution draws used model.states)
      let observations ← fillRow model.observations row
        (distribution draws (used + model.states) model.jointObservations)
      return ({ model with transitions, observations },
        used + model.states + model.jointObservations)

/-- A random model as it is drawn: joint action by joint action and state by state, from draws that
are used up one after the other. -/
def randomInOrder (states : Nat) (alphabets : List Alphabet) (storage : Storage)
    (draws : Nat → Nat) : Except Fault (Model W) := do
  let blank ← create states alphabets storage
  let (model, used) ← (List.range blank.jointActions).foldlM (fun progress jointAction =>
    (List.range states).foldlM (fun progress state =>
      drawRows draws progress (jointAction * states + state)) progress) (blank, 0)
  return { model with initial := distribution draws used states }

theorem foldlM_range_mul {σ ε : Type} (step : σ → Nat → Except ε σ) (rows cols : Nat) (start : σ) :
    (List.range (rows * cols)).foldlM step start =
      (List.range rows).foldlM (fun state row =>
        (List.range cols).foldlM (fun state col => step state (row * cols + col)) state) start := by
  induction rows with
  | zero => simp
  | succ rows ih =>
      rw [Nat.succ_mul, List.range_add, List.range_succ, List.foldlM_append, List.foldlM_append, ih]
      refine bind_congr fun state => ?_
      rw [List.foldlM_map, List.foldlM_cons]
      exact (bind_pure _).symm

theorem numbers_of_filled {draws : Nat → Nat} {blank model : Model W} {rows : List Nat}
    (run : rows.foldlM (fillRows draws) blank = .ok model) :
    model.states = blank.states ∧ model.jointObservations = blank.jointObservations := by
  refine foldlM_keeps (fun model => model.states = blank.states ∧
    model.jointObservations = blank.jointObservations) ?_ ⟨rfl, rfl⟩ run
  intro model row next kept filled
  obtain ⟨_, _, filled⟩ := bind_eq_ok_iff.mp filled
  obtain ⟨_, _, filled⟩ := bind_eq_ok_iff.mp filled
  cases filled
  exact kept

/-- The draws that were used up are told by the number of rows that were filled. -/
theorem foldlM_drawRows (draws : Nat → Nat) (blank : Model W) (count : Nat) :
    (List.range count).foldlM (drawRows draws) (blank, 0) =
      (List.range count).foldlM (fillRows draws) blank >>= fun model =>
        .ok (model, count * (blank.states + blank.jointObservations)) := by
  induction count with
  | zero => simp [bind, Except.bind, pure, Except.pure]
  | succ count ih =>
      rw [List.range_succ, List.foldlM_append, List.foldlM_append, ih, bind_assoc, bind_assoc]
      cases run : (List.range count).foldlM (fillRows draws) blank with
      | error fault => rfl
      | ok model =>
          obtain ⟨states, jointObservations⟩ := numbers_of_filled run
          rw [bind_of_eq_ok rfl, bind_of_eq_ok rfl, bind_of_eq_ok rfl, ← states,
            ← jointObservations, List.foldlM_cons, List.foldlM_cons]
          simp only [drawRows, fillRows, List.foldlM_nil, bind_pure, bind_assoc, pure_bind,
            Nat.succ_mul, Nat.add_assoc]
          rfl

theorem random_eq_inOrder (states : Nat) (alphabets : List Alphabet) (storage : Storage)
    (draws : Nat → Nat) :
    (random states alphabets storage draws : Except Fault (Model W)) =
      randomInOrder states alphabets storage draws := by
  unfold random randomInOrder
  cases created : create (W := W) states alphabets storage with
  | error fault => rfl
  | ok blank =>
      obtain ⟨_, _, _, _, _, _, _, _, numbers⟩ := create_eq_ok created
      have same : blank.states = states := by rw [numbers]
      rw [bind_of_eq_ok rfl, bind_of_eq_ok rfl, ← foldlM_range_mul, foldlM_drawRows, bind_assoc]
      dsimp only
      cases run : (List.range (blank.jointActions * states)).foldlM (fillRows draws) blank with
      | error fault => rfl
      | ok model =>
          obtain ⟨_, jointObservations⟩ := numbers_of_filled run
          rw [← jointObservations, same]
          rfl

end InOrder

/-! ## Every row, once -/

/-- If a blank model can be created, a random one can, whatever is drawn. Each of its rows and its
initial distribution hold what was drawn for them in turn, which is a distribution in which every
outcome is possible; it is found sound; and another storage holds the same. -/
theorem random_fills_every_row {states : Nat} {alphabets : List Alphabet} (draws : Nat → Nat)
    (observed : ∀ alphabet ∈ alphabets, 0 < alphabet.observations)
    (created : create states alphabets storage = .ok blank) :
    ∃ model : Model Rat, random states alphabets storage draws = .ok model ∧
      randomInOrder states alphabets storage draws = .ok model ∧
      model.states = states ∧
      Alphabet.joint alphabets = .ok ⟨model.jointActions, model.jointObservations⟩ ∧
      model.Holds draws ∧
      (∀ state < states, ∀ jointAction < model.jointActions,
        Full ((List.range states).map (model.transition state jointAction))) ∧
      (∀ jointAction < model.jointActions, ∀ next < states,
        Full ((List.range model.jointObservations).map (model.observation jointAction next))) ∧
      (model.initial.length = states ∧ Full model.initial) ∧
      model.validate = .ok () ∧
      ∀ (storage' : Storage) (other : Model Rat), random states alphabets storage' draws = .ok other →
        other.transition = model.transition ∧ other.observation = model.observation ∧
          other.eventObservation = model.eventObservation ∧ other.initial = model.initial := by
  obtain ⟨model, drawn, holds, rfl, joint, valid⟩ := exists_random draws observed created
  have proper := random_proper drawn
  have observant : 0 < model.jointObservations := jointObservations_pos joint observed
  refine ⟨model, drawn, (random_eq_inOrder ..).symm.trans drawn, rfl, joint, holds,
    fun state inside jointAction known => holds.transition_full inside known,
    fun jointAction known next inside => holds.observation_full known inside observant,
    ⟨proper.initial, holds.initial ▸ distribution_full draws _ proper.inhabited⟩, valid,
    fun storage' other drawn' => ?_⟩
  obtain ⟨blank', created', _⟩ := bind_eq_ok_iff.mp drawn'
  obtain ⟨other', again, holds', states, joint', _⟩ := exists_random draws observed created'
  obtain rfl : other = other' := Except.ok.inj (drawn'.symm.trans again)
  obtain ⟨jointActions, jointObservations⟩ :=
    Alphabet.mk.inj (Except.ok.inj (joint'.symm.trans joint))
  exact holds.same holds' states jointActions jointObservations

theorem random_fills_every_row_of_two :
    ∃ model other : Model Rat,
      random 2 [⟨2, 2⟩] .sparse (fun place => place * Nat.pow 2 60) = .ok model ∧
      random 2 [⟨2, 2⟩] .dense (fun place => place * Nat.pow 2 60) = .ok other ∧
      other.validate = .ok () ∧ (model.jointActions = 2 ∧ model.jointObservations = 2) ∧
      model.transition 1 1 0 + model.transition 1 1 1 = 1 ∧ 0 < model.transition 1 1 0 ∧
      other.transition = model.transition := by
  let draws : Nat → Nat := fun place => place * Nat.pow 2 60
  obtain ⟨blank, created⟩ : ∃ blank : Model Rat, create 2 [⟨2, 2⟩] .sparse = .ok blank := ⟨_, rfl⟩
  obtain ⟨blank', created'⟩ : ∃ blank : Model Rat, create 2 [⟨2, 2⟩] .dense = .ok blank := ⟨_, rfl⟩
  obtain ⟨model, drawn, _, _, joint, _, full, _, _, _, alike⟩ :=
    random_fills_every_row draws (by decide) created
  obtain ⟨other, drawn', _, _, _, _, _, _, _, valid, _⟩ :=
    random_fills_every_row draws (by decide) created'
  obtain ⟨jointActions, jointObservations⟩ := Alphabet.mk.inj (Except.ok.inj joint)
  have row := full 1 (by decide) 1 (jointActions ▸ by decide)
  refine ⟨model, other, drawn, drawn', valid, ⟨jointActions.symm, jointObservations.symm⟩, ?_,
    row.pos _ (List.mem_map_of_mem (by decide)), (alike .dense other drawn').1⟩
  simpa [List.range_succ] using row.sum

end Model

end TeamPlanning
