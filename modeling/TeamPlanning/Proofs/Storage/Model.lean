import TeamPlanning.Proofs.Refusals
import TeamPlanning.Proofs.Storage.Table

/-! # Models in two storages

Two models that were created with the same states and alphabets, one dense and one sparse, and
written alike, give the same answers. Only a team that has joint actions but no joint observation can
tell them apart: the rows of observations of the dense model then count for nothing, so it may be
found sound where the sparse one is not. -/

set_option autoImplicit false

namespace TeamPlanning.Model

variable {W : Type} [Weight W]

/-- The outcomes of writes that are made one after the other, and the model after the last one. -/
def writeAll (model : Model W) : List (Write W) → List (Except Fault Unit) × Model W
  | [] => ([], model)
  | write :: writes =>
      let (outcome, next) := model.write write
      let (outcomes, last) := next.writeAll writes
      (outcome :: outcomes, last)

/-- If the write is one of an observation by event, then a table of these can be made in either
storage, as far as its rows can be counted. -/
def Fits (model : Model W) : Write W → Prop
  | .event _ _ _ _ _ =>
      ∀ rows, Bounded.prod [model.states, model.jointActions, model.states] = .ok rows →
        ∀ storage, ∃ blank : ProbabilityTable W,
          ProbabilityTable.create storage rows model.jointObservations = .ok blank
  | _ => True

/-- The write asks for a cell in a row of observations, plain or by event. -/
def SeeksObservation (model : Model W) : Write W → Prop
  | .observation jointAction next _ _ => jointAction < model.jointActions ∧ next < model.states
  | .event state jointAction next _ _ =>
      (∃ rows, Bounded.prod [model.states, model.jointActions, model.states] = .ok rows) ∧
        state < model.states ∧ jointAction < model.jointActions ∧ next < model.states
  | _ => False

/-- Every row of observations has a cell. -/
def HasObservations (model : Model W) : Prop :=
  0 < model.jointObservations ∨ model.jointActions = 0

/-- Whoever asks for probabilities, successors or the initial distribution cannot tell the models
apart. Probabilities are compared as numbers, since zero may be written in two ways. -/
structure AnswersAlike (dense sparse : Model W) : Prop where
  isEventDriven : dense.isEventDriven = sparse.isEventDriven
  transition : ∀ state jointAction next, Weight.eq (dense.transition state jointAction next)
    (sparse.transition state jointAction next) = true
  observation : ∀ jointAction next jointObservation,
    Weight.eq (dense.observation jointAction next jointObservation)
      (sparse.observation jointAction next jointObservation) = true
  eventObservation : ∀ state jointAction next jointObservation,
    Weight.eq (dense.eventObservation state jointAction next jointObservation)
      (sparse.eventObservation state jointAction next jointObservation) = true
  successors : dense.successors = sparse.successors
  initial : dense.initial = sparse.initial

/-- The tables of events are there in both models or in none, with the same cells. -/
def EventsMirror (rows cols : Nat) :
    Option (ProbabilityTable W) → Option (ProbabilityTable W) → Prop
  | none, none => True
  | some dense, some sparse => rows < wordBound ∧ ProbabilityTable.Mirrors rows cols dense sparse
  | _, _ => False

/-- The models have the same numbers, and tables with the same cells. -/
structure Mirrors (dense sparse : Model W) : Prop where
  inhabited : 0 < dense.states
  small : dense.jointActions * dense.states < wordBound
  states : sparse.states = dense.states
  jointActions : sparse.jointActions = dense.jointActions
  jointObservations : sparse.jointObservations = dense.jointObservations
  transitions : ProbabilityTable.Mirrors (dense.jointActions * dense.states) dense.states
    dense.transitions sparse.transitions
  observations : ProbabilityTable.Mirrors (dense.jointActions * dense.states) dense.jointObservations
    dense.observations sparse.observations
  events : EventsMirror (dense.states * dense.jointActions * dense.states) dense.jointObservations
    dense.events sparse.events
  initial : dense.initial = sparse.initial

theorem mirrors_of_create (laws : Weight.Comparable W) {states : Nat} {alphabets : List Alphabet}
    {dense sparse : Model W} (made : create states alphabets .dense = .ok dense)
    (made' : create states alphabets .sparse = .ok sparse) : Mirrors dense sparse := by
  obtain ⟨inhabited, joint, _, _, joined, small, first, second, rfl⟩ := create_eq_ok made
  obtain ⟨_, joint', _, _, joined', _, first', second', rfl⟩ := create_eq_ok made'
  obtain rfl : joint = joint' := Except.ok.inj (joined.symm.trans joined')
  constructor
  case inhabited => exact inhabited
  case small => exact small
  case states => rfl
  case jointActions => rfl
  case jointObservations => rfl
  case transitions => exact ProbabilityTable.mirrors_of_create laws first first'
  case observations => exact ProbabilityTable.mirrors_of_create laws second second'
  case events => trivial
  case initial => rfl

omit [Weight W] in
/-- The rows of observations, if there are any, have cells just if there are joint observations. -/
theorem hasObservations_iff {model : Model W} {write : Write W} (inhabited : 0 < model.jointActions)
    (seeks : model.SeeksObservation write) :
    0 < model.jointObservations ↔
      model.HasObservations ∨ ¬ model.SeeksObservation write := by
  rw [HasObservations]
  constructor
  · exact fun wide => .inl (.inl wide)
  · intro given
    rcases given with (wide | none) | blind
    · exact wide
    · omega
    · exact absurd seeks blind

theorem write_numbers (model : Model W) (write : Write W) :
    (model.write write).2.states = model.states ∧
      (model.write write).2.jointActions = model.jointActions ∧
        (model.write write).2.jointObservations = model.jointObservations := by
  have step := model.written write
  generalize (model.write write).2 = next at step ⊢
  cases step <;> exact ⟨rfl, rfl, rfl⟩

/-! What is asked of a write depends on the numbers of the model alone. -/

theorem fits_write (model : Model W) (write later : Write W) :
    (model.write write).2.Fits later ↔ model.Fits later := by
  obtain ⟨states, jointActions, jointObservations⟩ := write_numbers model write
  cases later <;> simp only [Fits, states, jointActions, jointObservations]

theorem seeksObservation_write (model : Model W) (write later : Write W) :
    (model.write write).2.SeeksObservation later ↔ model.SeeksObservation later := by
  obtain ⟨states, jointActions, _⟩ := write_numbers model write
  cases later <;> simp only [SeeksObservation, states, jointActions]

theorem hasObservations_write (model : Model W) (write : Write W) :
    (model.write write).2.HasObservations ↔ model.HasObservations := by
  obtain ⟨_, jointActions, jointObservations⟩ := write_numbers model write
  rw [HasObservations, HasObservations, jointActions, jointObservations]

theorem hasObservations_writeAll (model : Model W) (writes : List (Write W)) :
    (model.writeAll writes).2.HasObservations ↔ model.HasObservations := by
  induction writes generalizing model with
  | nil => exact Iff.rfl
  | cons write writes ih => exact (ih _).trans (hasObservations_write model write)

namespace Mirrors

variable {dense sparse : Model W} (mirrors : Mirrors dense sparse)
include mirrors

theorem row_eq : sparse.row = dense.row := by
  funext jointAction state
  rw [Model.row, Model.row, mirrors.states, mirrors.jointActions]

theorem eventRow_eq : sparse.eventRow = dense.eventRow := by
  funext state jointAction next
  rw [Model.eventRow, Model.eventRow, mirrors.row_eq, mirrors.states, mirrors.jointActions]

theorem events_cases : dense.events = none ∧ sparse.events = none ∨
    ∃ first second, dense.events = some first ∧ sparse.events = some second ∧
      dense.states * dense.jointActions * dense.states < wordBound ∧
        ProbabilityTable.Mirrors (dense.states * dense.jointActions * dense.states)
          dense.jointObservations first second := by
  have events := mirrors.events
  cases known : dense.events with
  | none =>
      cases known' : sparse.events with
      | none => exact .inl ⟨rfl, rfl⟩
      | some second =>
          rw [known, known'] at events
          exact events.elim
  | some first =>
      rw [known] at events
      cases known' : sparse.events with
      | none =>
          rw [known'] at events
          exact events.elim
      | some second =>
          rw [known'] at events
          exact .inr ⟨first, second, rfl, rfl, events⟩

theorem answersAlike (laws : Weight.Comparable W) : AnswersAlike dense sparse := by
  have zero : Weight.eq (Weight.zero : W) Weight.zero = true :=
    laws.eq_self _ laws.isProbability_zero
  have observed : ∀ jointAction next jointObservation,
      Weight.eq (dense.observation jointAction next jointObservation)
        (sparse.observation jointAction next jointObservation) = true := by
    intro jointAction next jointObservation
    rw [Model.observation, Model.observation, mirrors.row_eq]
    cases found : dense.row jointAction next with
    | error fault => exact zero
    | ok row => exact mirrors.observations.cell_eq laws (row_lt mirrors.small found) jointObservation
  constructor
  case isEventDriven =>
    rw [Model.isEventDriven, Model.isEventDriven]
    rcases mirrors.events_cases with ⟨known, known'⟩ | ⟨first, second, known, known', _⟩
    · rw [known, known']
    · rw [known, known']
      rfl
  case transition =>
    intro state jointAction next
    rw [Model.transition, Model.transition, mirrors.row_eq]
    cases found : dense.row jointAction state with
    | error fault => exact zero
    | ok row => exact mirrors.transitions.cell_eq laws (row_lt mirrors.small found) next
  case observation => exact observed
  case eventObservation =>
    intro state jointAction next jointObservation
    rw [Model.eventObservation, Model.eventObservation, mirrors.eventRow_eq]
    rcases mirrors.events_cases with ⟨known, known'⟩ | ⟨first, second, known, known', small, tables⟩
    · rw [known, known']
      exact observed jointAction next jointObservation
    · rw [known, known']
      cases found : dense.eventRow state jointAction next with
      | error fault => exact zero
      | ok row =>
          exact tables.cell_eq laws (Countable.eventRow_lt mirrors.inhabited small found) jointObservation
  case successors =>
    funext state jointAction
    rw [Model.successors, Model.successors, mirrors.row_eq]
    cases found : dense.row jointAction state with
    | error fault => rfl
    | ok row => exact mirrors.transitions.row_eq (row_lt mirrors.small found)
  case initial => exact mirrors.initial

theorem storage_eq : dense.storage = .dense ∧ sparse.storage = .sparse := by
  have transitions := mirrors.transitions
  rw [Model.storage, Model.storage]
  generalize dense.transitions = first, sparse.transitions = second at transitions
  cases transitions
  exact ⟨rfl, rfl⟩

/-- Both models open a table of events at the same row, or refuse with the same fault. -/
theorem openEvents_cases (laws : Weight.Comparable W)
    {state jointAction next jointObservation : Nat} {p : W}
    (fits : dense.Fits (.event state jointAction next jointObservation p)) :
    (∃ fault, dense.openEvents state jointAction next = .error fault ∧
      sparse.openEvents state jointAction next = .error fault ∧
        ¬ dense.SeeksObservation (.event state jointAction next jointObservation p)) ∨
      ∃ first second row, dense.openEvents state jointAction next = .ok (first, row) ∧
        sparse.openEvents state jointAction next = .ok (second, row) ∧
          row < dense.states * dense.jointActions * dense.states ∧
            EventsMirror (dense.states * dense.jointActions * dense.states) dense.jointObservations
              (some first) (some second) ∧
              dense.SeeksObservation (.event state jointAction next jointObservation p) := by
  rw [openEvents, openEvents, mirrors.eventRow_eq, mirrors.states, mirrors.jointActions,
    mirrors.jointObservations, mirrors.storage_eq.1, mirrors.storage_eq.2]
  cases counted : Bounded.prod [dense.states, dense.jointActions, dense.states] with
  | error fault =>
      refine .inl ⟨fault, rfl, rfl, fun seeks => ?_⟩
      obtain ⟨rows, counted'⟩ := seeks.1
      rw [counted] at counted'
      cases counted'
  | ok rows =>
      obtain ⟨product, small⟩ := Bounded.prod_eq_ok counted
      obtain rfl : rows = dense.states * dense.jointActions * dense.states := by
        simpa [mul_assoc] using product
      cases found : dense.eventRow state jointAction next with
      | error fault =>
          refine .inl ⟨fault, rfl, rfl, fun seeks => ?_⟩
          obtain ⟨row, found'⟩ := eventRow_isOk_iff.mpr seeks.2
          rw [found] at found'
          cases found'
      | ok row =>
          have bounded := Countable.eventRow_lt mirrors.inhabited small found
          have seeks : dense.SeeksObservation (.event state jointAction next jointObservation p) :=
            ⟨⟨_, counted⟩, eventRow_isOk_iff.mp ⟨row, found⟩⟩
          rcases mirrors.events_cases with ⟨known, known'⟩ | ⟨first, second, known, known', tables⟩
          · obtain ⟨first, made⟩ := fits _ counted .dense
            obtain ⟨second, made'⟩ := fits _ counted .sparse
            rw [known, known']
            refine .inr ⟨first, second, row, ?_, ?_, bounded, ⟨small, ?_⟩, seeks⟩
            · exact bind_of_eq_ok made fun table => .ok (table, row)
            · exact bind_of_eq_ok made' fun table => .ok (table, row)
            · exact ProbabilityTable.mirrors_of_create laws made made'
          · rw [known, known']
            exact .inr ⟨first, second, row, rfl, rfl, bounded, tables, seeks⟩

/-- Writing a cell that both models look for in the same row: the models stay alike, and the outcomes
are of the same kind. They are the same outcome unless the row has no cells. -/
theorem settle_set (laws : Weight.Comparable W) {rows cols row : Nat}
    {table table' : ProbabilityTable W} (tables : ProbabilityTable.Mirrors rows cols table table')
    (inside : row < rows) (col : Nat) (p : W) (put put' : ProbabilityTable W → Model W)
    (kept : ∀ first second, ProbabilityTable.Mirrors rows cols first second →
      Mirrors (put first) (put' second)) :
    let step := dense.settle (table.set row col p >>= fun first => .ok (put first))
    let step' := sparse.settle (table'.set row col p >>= fun second => .ok (put' second))
    SameOutcome step.1 step'.1 ∧ (step.1 = step'.1 ↔ 0 < cols) ∧ Mirrors step.2 step'.2 := by
  rcases tables.set_alike laws inside col p with
    ⟨inhabited, first, second, written, written', alike⟩ |
      ⟨fault, fault', refused, refused', kind, same⟩
  · rw [bind_of_eq_ok written, bind_of_eq_ok written']
    exact ⟨rfl, iff_of_true rfl inhabited, kept first second alike⟩
  · rw [bind_of_eq_error refused, bind_of_eq_error refused']
    refine ⟨congrArg Except.error kind, ?_, mirrors⟩
    rw [← same]
    exact ⟨Except.error.inj, congrArg Except.error⟩

/-- An observation by event: the table is opened in both models before its cell is written, and stays
open when the cell is refused. -/
theorem write_event_alike (laws : Weight.Comparable W) {state jointAction next jointObservation : Nat}
    {p : W} (fits : dense.Fits (.event state jointAction next jointObservation p)) :
    let write := Write.event state jointAction next jointObservation p
    SameOutcome (dense.write write).1 (sparse.write write).1 ∧
      ((dense.write write).1 = (sparse.write write).1 ↔
        dense.HasObservations ∨ ¬ dense.SeeksObservation write) ∧
        Mirrors (dense.write write).2 (sparse.write write).2 := by
  simp only [Model.write, writeEventObservation]
  rcases mirrors.openEvents_cases laws fits with
    ⟨fault, failed, failed', blind⟩ |
      ⟨first, second, row, opened, opened', inside, ⟨small, tables⟩, seeks⟩
  · rw [failed, failed']
    exact ⟨rfl, iff_of_true rfl (.inr blind), mirrors⟩
  · simp only [opened, opened']
    have inhabited : 0 < dense.jointActions := Nat.zero_lt_of_lt seeks.2.2.1
    rcases tables.set_alike laws inside jointObservation p with
      ⟨wide, first', second', written, written', alike⟩ |
        ⟨fault, fault', refused, refused', kind, same⟩
    · rw [written, written']
      exact ⟨rfl, iff_of_true rfl (.inl (.inl wide)), { mirrors with events := ⟨small, alike⟩ }⟩
    · rw [refused, refused']
      refine ⟨congrArg Except.error kind, ?_, { mirrors with events := ⟨small, tables⟩ }⟩
      rw [← hasObservations_iff inhabited seeks, ← same]
      exact ⟨Except.error.inj, congrArg Except.error⟩

/-- One write: outcomes of the same kind, and models that are alike again. The outcomes are the same
unless the write asks for a cell of a row that has none. -/
theorem write_alike (laws : Weight.Comparable W) {write : Write W} (fits : dense.Fits write) :
    SameOutcome (dense.write write).1 (sparse.write write).1 ∧
      ((dense.write write).1 = (sparse.write write).1 ↔
        dense.HasObservations ∨ ¬ dense.SeeksObservation write) ∧
        Mirrors (dense.write write).2 (sparse.write write).2 := by
  cases write with
  | transition state jointAction next p =>
      simp only [Model.write, writeTransition, mirrors.row_eq]
      have blind : dense.HasObservations ∨
          ¬ dense.SeeksObservation (.transition state jointAction next p) := .inr id
      cases found : dense.row jointAction state with
      | error fault => exact ⟨rfl, iff_of_true rfl blind, mirrors⟩
      | ok row =>
          obtain ⟨kind, same, alike⟩ := mirrors.settle_set laws mirrors.transitions
            (row_lt mirrors.small found) next p
            (fun table => { dense with transitions := table })
            (fun table => { sparse with transitions := table })
            fun _ _ tables => { mirrors with transitions := tables }
          exact ⟨kind, iff_of_true (same.mpr mirrors.inhabited) blind, alike⟩
  | observation jointAction next jointObservation p =>
      simp only [Model.write, writeObservation, mirrors.row_eq]
      by_cases inside : jointAction < dense.jointActions ∧ next < dense.states
      · obtain ⟨row, found⟩ : ∃ row, dense.row jointAction next = .ok row := ⟨_, if_pos inside⟩
        obtain ⟨kind, same, alike⟩ := mirrors.settle_set laws mirrors.observations
          (row_lt mirrors.small found) jointObservation p
          (fun table => { dense with observations := table })
          (fun table => { sparse with observations := table })
          fun _ _ tables => { mirrors with observations := tables }
        have seeks : dense.SeeksObservation
          (.observation jointAction next jointObservation p) := inside
        rw [found]
        exact ⟨kind, same.trans (hasObservations_iff (Nat.zero_lt_of_lt inside.1) seeks), alike⟩
      · have blind : ¬ dense.SeeksObservation
          (.observation jointAction next jointObservation p) := inside
        rw [Model.row, if_neg inside]
        exact ⟨rfl, iff_of_true rfl (.inr blind), mirrors⟩
  | event state jointAction next jointObservation p => exact mirrors.write_event_alike laws fits
  | initial distribution =>
      simp only [Model.write, writeInitial]
      have blind : dense.HasObservations ∨
          ¬ dense.SeeksObservation (.initial distribution) := .inr id
      by_cases long : distribution.length = dense.states
      · rw [if_pos long, if_pos (long.trans mirrors.states.symm)]
        exact ⟨rfl, iff_of_true rfl blind, { mirrors with initial := rfl }⟩
      · rw [if_neg long, if_neg fun same => long (same.trans mirrors.states), mirrors.states]
        exact ⟨rfl, iff_of_true rfl blind, mirrors⟩

theorem writeAll_alike (laws : Weight.Comparable W) {writes : List (Write W)}
    (fits : ∀ write ∈ writes, dense.Fits write) :
    List.Forall₂ SameOutcome (dense.writeAll writes).1 (sparse.writeAll writes).1 ∧
      ((dense.writeAll writes).1 = (sparse.writeAll writes).1 ↔
        dense.HasObservations ∨ ∀ write ∈ writes, ¬ dense.SeeksObservation write) ∧
        Mirrors (dense.writeAll writes).2 (sparse.writeAll writes).2 := by
  induction writes generalizing dense sparse with
  | nil => exact ⟨.nil, iff_of_true rfl (.inr (List.forall_mem_nil _)), mirrors⟩
  | cons write writes ih =>
      obtain ⟨fits, others⟩ := List.forall_mem_cons.mp fits
      obtain ⟨kind, same, alike⟩ := mirrors.write_alike laws fits
      have others : ∀ later ∈ writes, (dense.write write).2.Fits later := fun later member =>
        (fits_write dense write later).mpr (others later member)
      obtain ⟨kinds, sames, last⟩ := ih alike others
      simp only [seeksObservation_write, hasObservations_write] at sames
      refine ⟨.cons kind kinds, ?_, last⟩
      simp only [writeAll, List.cons.injEq, same, sames, List.forall_mem_cons]
      exact or_and_left.symm

theorem observationsInUse : ∃ rows, (rows = 0 ↔ dense.jointActions = 0) ∧
    ProbabilityTable.Mirrors rows dense.jointObservations (dense.events.getD dense.observations)
      (sparse.events.getD sparse.observations) := by
  have inhabited := mirrors.inhabited
  rcases mirrors.events_cases with ⟨known, known'⟩ | ⟨first, second, known, known', _, tables⟩
  · rw [known, known']
    exact ⟨_, by simp [Nat.ne_of_gt inhabited], mirrors.observations⟩
  · rw [known, known']
    exact ⟨_, by simp [Nat.ne_of_gt inhabited], tables⟩

theorem validate_eq (observed : dense.HasObservations) : dense.validate = sparse.validate := by
  obtain ⟨rows, counted, tables⟩ := mirrors.observationsInUse
  rw [Model.validate, Model.validate, mirrors.transitions.validate_eq (.inl mirrors.inhabited),
    tables.validate_eq (observed.imp id counted.mpr), mirrors.initial]

theorem validate_of_no_observations (laws : Weight.Comparable W)
    (unobserved : ¬ dense.HasObservations) : ∃ fault, sparse.validate = .error fault := by
  obtain ⟨rows, counted, tables⟩ := mirrors.observationsInUse
  obtain ⟨none, some⟩ := not_or.mp unobserved
  obtain ⟨_, fault, failed⟩ := tables.validate_of_no_columns laws (by omega) (by omega)
  cases passed : sparse.transitions.validate with
  | error fault => exact ⟨fault, by rw [Model.validate, bind_of_eq_error passed]⟩
  | ok _ => exact ⟨fault, by rw [Model.validate, bind_of_eq_ok passed, bind_of_eq_error failed]⟩

end Mirrors

/-- The storage of a model cannot be observed, with one exception. Let a dense and a sparse model be
created alike and written alike, with room for the tables of events. Every write ends in the same way,
and probabilities, successors and the initial distribution are the same. If some joint observation
exists, or no joint action does, faults and soundness are the same too. Otherwise the faults of writes
to a row of observations differ in the number of rows that they name, and the sparse model is never
found sound, so the two agree on that only where the dense one fails for another reason. -/
theorem storage_unobservable_iff (laws : Weight.Comparable W) {states : Nat}
    {alphabets : List Alphabet} {dense sparse : Model W}
    (made : create states alphabets .dense = .ok dense)
    (made' : create states alphabets .sparse = .ok sparse) {writes : List (Write W)}
    (fits : ∀ write ∈ writes, dense.Fits write) :
    List.Forall₂ SameOutcome (dense.writeAll writes).1 (sparse.writeAll writes).1 ∧
      AnswersAlike (dense.writeAll writes).2 (sparse.writeAll writes).2 ∧
        ((dense.writeAll writes).1 = (sparse.writeAll writes).1 ↔
          dense.HasObservations ∨ ∀ write ∈ writes, ¬ dense.SeeksObservation write) ∧
          (dense.HasObservations →
            (dense.writeAll writes).2.validate = (sparse.writeAll writes).2.validate) ∧
            ((dense.writeAll writes).2.validate.isOk = (sparse.writeAll writes).2.validate.isOk ↔
              dense.HasObservations ∨ (dense.writeAll writes).2.validate.isOk = false) := by
  obtain ⟨kinds, same, alike⟩ := (mirrors_of_create laws made made').writeAll_alike laws fits
  have sound : dense.HasObservations →
      (dense.writeAll writes).2.validate = (sparse.writeAll writes).2.validate := fun observed =>
    alike.validate_eq ((hasObservations_writeAll dense writes).mpr observed)
  refine ⟨kinds, alike.answersAlike laws, same, sound, ?_⟩
  by_cases observed : dense.HasObservations
  · rw [sound observed]
    exact iff_of_true rfl (.inl observed)
  · obtain ⟨fault, failed⟩ := alike.validate_of_no_observations laws fun given =>
      observed ((hasObservations_writeAll dense writes).mp given)
    rw [failed, or_iff_right observed]
    rfl

/-- A blank table of one cell, a transition, an observation by event and a refused probability: both
models end in the same state, and both are sound. -/
theorem storage_unobservable_iff_single :
    ∃ dense sparse : Model Rat, create 1 [⟨1, 1⟩] .dense = .ok dense ∧
      create 1 [⟨1, 1⟩] .sparse = .ok sparse ∧
        let writes := [.transition 0 0 0 1, .event 0 0 0 0 1, .observation 0 0 0 2]
        (∀ write ∈ writes, dense.Fits write) ∧
          (dense.writeAll writes).1 = (sparse.writeAll writes).1 ∧
            AnswersAlike (dense.writeAll writes).2 (sparse.writeAll writes).2 ∧
              (dense.writeAll writes).2.validate = .ok () ∧
                (sparse.writeAll writes).2.validate = .ok () := by
  obtain ⟨dense, made⟩ : ∃ dense : Model Rat, create 1 [⟨1, 1⟩] .dense = .ok dense := ⟨_, rfl⟩
  obtain ⟨sparse, made'⟩ : ∃ sparse : Model Rat, create 1 [⟨1, 1⟩] .sparse = .ok sparse :=
    ⟨_, rfl⟩
  have fits : ∀ write ∈ [Write.transition 0 0 0 1, .event 0 0 0 0 1, .observation 0 0 0 2],
      dense.Fits write := by
    simp only [List.forall_mem_cons]
    refine ⟨trivial, ?_, trivial, List.forall_mem_nil _⟩
    intro rows counted storage
    cases made
    cases counted
    cases storage with
    | dense => exact ⟨_, rfl⟩
    | sparse => exact ⟨_, rfl⟩
  obtain ⟨_, alike, same, sound, _⟩ :=
    storage_unobservable_iff Weight.comparable_rat made made' fits
  have observed : dense.HasObservations := by
    cases made
    exact .inl (by decide)
  have passed : (dense.writeAll
      [.transition 0 0 0 1, .event 0 0 0 0 1, .observation 0 0 0 2]).2.validate = .ok () := by
    cases made
    decide +kernel
  exact ⟨dense, sparse, made, made', fits, same.mpr (.inl observed), alike, passed,
    (sound observed).symm.trans passed⟩

/-- One state and one agent that acts but observes nothing: once the transition is written, the dense
model is sound and the sparse one is not. -/
theorem storage_decides_soundness :
    ∃ (dense sparse : Model Rat) (fault : Fault), create 1 [⟨1, 0⟩] .dense = .ok dense ∧
      create 1 [⟨1, 0⟩] .sparse = .ok sparse ∧
        (dense.writeAll [.transition 0 0 0 1]).2.validate = .ok () ∧
          (sparse.writeAll [.transition 0 0 0 1]).2.validate = .error fault := by
  refine ⟨_, _, .unsound (.row 0 (Weight.text (0 : Rat))), rfl, rfl, ?_, ?_⟩
  · decide +kernel
  · decide +kernel

end TeamPlanning.Model
