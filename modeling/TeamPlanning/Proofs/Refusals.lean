import TeamPlanning.Proofs.Rows
import TeamPlanning.Weight.Rational

/-! # Refused writes

A write to a model that is refused leaves the model as it was, with one exception: the first write of
an observation by event makes the table of events before it looks at the cell and the probability. The
model is then driven by events that have no observations. -/

set_option autoImplicit false

namespace TeamPlanning

variable {W : Type} [Weight W]

/-- Whatever is read from a table of zeros is zero. -/
theorem ProbabilityTable.eq_zero_of_create {storage : Storage} {rows cols : Nat}
    {blank : ProbabilityTable W} (created : create storage rows cols = .ok blank) {row col : Nat}
    {p : W} (read : blank.get row col = .ok p) : p = Weight.zero := by
  cases storage with
  | dense =>
      obtain ⟨cells, _, made⟩ := bind_eq_ok_iff.mp created
      cases made
      rw [get] at read
      split at read
      · obtain ⟨place, _, read⟩ := bind_eq_ok_iff.mp read
        cases read
        rw [Array.getElem?_replicate]
        split <;> rfl
      · cases read
        rfl
  | sparse =>
      cases created
      cases read
      rw [Array.getElem?_replicate]
      split <;> rfl

theorem ProbabilityTable.cell_of_create {storage : Storage} {rows cols : Nat}
    {blank : ProbabilityTable W} (created : create storage rows cols = .ok blank) (row col : Nat) :
    blank.cell row col = Weight.zero := by
  cases read : blank.get row col with
  | error fault =>
      rw [cell, read]
      rfl
  | ok p => rw [cell_of_get read, eq_zero_of_create created read]

namespace Model

/-- A request to write into a model. -/
inductive Write (W : Type) where
  | transition (state jointAction next : Nat) (p : W)
  | observation (jointAction next jointObservation : Nat) (p : W)
  | event (state jointAction next jointObservation : Nat) (p : W)
  | initial (distribution : List W)

def settle (model : Model W) : Except Fault (Model W) → Except Fault Unit × Model W
  | .ok next => (.ok (), next)
  | .error fault => (.error fault, model)

def write (model : Model W) : Write W → Except Fault Unit × Model W
  | .transition state jointAction next p =>
      model.settle (model.writeTransition state jointAction next p)
  | .observation jointAction next jointObservation p =>
      model.settle (model.writeObservation jointAction next jointObservation p)
  | .event state jointAction next jointObservation p =>
      model.writeEventObservation state jointAction next jointObservation p
  | .initial distribution => model.settle (model.writeInitial distribution)

/-- All that a write can do, whether or not it succeeds: one part of the model is replaced at most. -/
inductive Written (model : Model W) : Model W → Prop where
  | unchanged : Written model model
  | transitions {row col : Nat} {p : W} {transitions : ProbabilityTable W}
      (set : model.transitions.set row col p = .ok transitions) :
      Written model { model with transitions }
  | observations {row col : Nat} {p : W} {observations : ProbabilityTable W}
      (set : model.observations.set row col p = .ok observations) :
      Written model { model with observations }
  | events (events : ProbabilityTable W) : Written model { model with events := some events }
  | initial (distribution : List W) : Written model { model with initial := distribution }

theorem written (model : Model W) (write : Write W) : model.Written (model.write write).2 := by
  cases write with
  | transition state jointAction next p =>
      simp only [Model.write]
      cases outcome : model.writeTransition state jointAction next p with
      | error fault => exact .unchanged
      | ok model' =>
          obtain ⟨row, _, outcome⟩ := bind_eq_ok_iff.mp outcome
          obtain ⟨table, set, outcome⟩ := bind_eq_ok_iff.mp outcome
          cases outcome
          exact .transitions set
  | observation jointAction next jointObservation p =>
      simp only [Model.write]
      cases outcome : model.writeObservation jointAction next jointObservation p with
      | error fault => exact .unchanged
      | ok model' =>
          obtain ⟨row, _, outcome⟩ := bind_eq_ok_iff.mp outcome
          obtain ⟨table, set, outcome⟩ := bind_eq_ok_iff.mp outcome
          cases outcome
          exact .observations set
  | event state jointAction next jointObservation p =>
      simp only [Model.write, writeEventObservation]
      split
      · exact .unchanged
      · split
        · exact .events _
        · exact .events _
  | initial distribution =>
      simp only [Model.write, writeInitial]
      split
      · exact .initial distribution
      · exact .unchanged

/-- Nobody who asks can tell the models apart. -/
structure SameAnswers (model other : Model W) : Prop where
  isEventDriven : model.isEventDriven = other.isEventDriven
  transition : model.transition = other.transition
  observation : model.observation = other.observation
  eventObservation : model.eventObservation = other.eventObservation
  successors : model.successors = other.successors
  initial : model.process.initial = other.process.initial
  validate : model.validate = other.validate

/-- The write is the first one of an observation by event, to a row that exists, and the table of
events can be made. -/
def Opens (model : Model W) : Write W → Prop
  | .event state jointAction next _ _ =>
      model.events = none ∧
        (state < model.states ∧ jointAction < model.jointActions ∧ next < model.states) ∧
          ∃ (rows : Nat) (blank : ProbabilityTable W),
            Bounded.prod [model.states, model.jointActions, model.states] = .ok rows ∧
              ProbabilityTable.create model.storage rows model.jointObservations = .ok blank
  | _ => False

variable {model : Model W} {write : Write W} {fault : Fault}
  {state jointAction next jointObservation : Nat} {p : W}

/-- A table of events that is there is opened; otherwise a blank one is, where the write opens it. -/
theorem openEvents_cases {events : ProbabilityTable W} {row : Nat}
    (opened : model.openEvents state jointAction next = .ok (events, row)) :
    model.events = some events ∨
      model.Opens (.event state jointAction next jointObservation p) ∧
        ∀ row col, events.cell row col = Weight.zero := by
  obtain ⟨counted, _, placed, present | ⟨absent, created⟩⟩ := openEvents_eq_ok opened
  · exact .inl present
  · exact .inr ⟨⟨absent, eventRow_isOk_iff.mp ⟨_, placed⟩, _, _, counted, created⟩,
      ProbabilityTable.cell_of_create created⟩

theorem openEvents_isOk_of_opens
    (opens : model.Opens (.event state jointAction next jointObservation p)) :
    ∃ place, model.openEvents state jointAction next = .ok place := by
  obtain ⟨absent, inside, rows, blank, counted, created⟩ := opens
  obtain ⟨row, placed⟩ := eventRow_isOk_iff.mpr inside
  refine ⟨(blank, row), ?_⟩
  unfold openEvents
  rw [bind_of_eq_ok counted, bind_of_eq_ok placed, absent]
  exact bind_of_eq_ok created _

/-- The model after a write that was refused: the one before, or one that is driven by blank events. -/
theorem write_cases_of_refused (refused : (model.write write).1 = .error fault) :
    ¬ model.Opens write ∧ (model.write write).2 = model ∨
      model.Opens write ∧ ∃ blank : ProbabilityTable W,
        (∀ row col, blank.cell row col = Weight.zero) ∧
          (model.write write).2 = { model with events := some blank } := by
  have settled : ∀ outcome : Except Fault (Model W), (model.settle outcome).1 = .error fault →
      (model.settle outcome).2 = model := by
    intro outcome refused
    cases outcome with
    | error => rfl
    | ok next => cases refused
  cases write with
  | transition => exact .inl ⟨id, settled _ refused⟩
  | observation => exact .inl ⟨id, settled _ refused⟩
  | initial => exact .inl ⟨id, settled _ refused⟩
  | event state jointAction next jointObservation p =>
      -- The table is opened before the cell is written, so the refusal may come after a change.
      simp only [Model.write, writeEventObservation] at refused ⊢
      cases opened : model.openEvents state jointAction next with
      | error =>
          refine .inl ⟨fun opens => ?_, rfl⟩
          obtain ⟨place, success⟩ := openEvents_isOk_of_opens opens
          rw [opened] at success
          cases success
      | ok place =>
          obtain ⟨events, row⟩ := place
          simp only [opened] at refused ⊢
          cases written : events.set row jointObservation p with
          | ok events' =>
              simp only [written] at refused
              cases refused
          | error =>
              rcases openEvents_cases (p := p) opened with present | ⟨opens, blank⟩
              · refine .inl ⟨fun opens => ?_, ?_⟩
                · rw [opens.1] at present
                  cases present
                · rw [← present]
              · exact .inr ⟨opens, events, blank, rfl⟩

theorem SameAnswers.refl (model : Model W) : model.SameAnswers model :=
  ⟨rfl, rfl, rfl, rfl, rfl, rfl, rfl⟩

/-- A refused write leaves the model as it was unless it opens the table of events. Then the model is
driven by events from there on, and none of them is ever observed; nothing else is changed. -/
theorem refused_write_changes_nothing_iff (model : Model W) (write : Write W) {fault : Fault}
    (refused : (model.write write).1 = .error fault) :
    ((model.write write).2.SameAnswers model ↔ ¬ model.Opens write) ∧
      (¬ model.Opens write → (model.write write).2 = model) ∧
        (model.Opens write → model.isEventDriven = false ∧
          (model.write write).2.isEventDriven = true ∧
            (∀ state jointAction next jointObservation,
              (model.write write).2.eventObservation state jointAction next jointObservation =
                Weight.zero) ∧
              (model.write write).2.transition = model.transition ∧
                (model.write write).2.observation = model.observation ∧
                  (model.write write).2.successors = model.successors ∧
                    (model.write write).2.process.initial = model.process.initial) := by
  rcases write_cases_of_refused refused with ⟨closed, same⟩ | ⟨opens, blank, zero, changed⟩
  · rw [same]
    exact ⟨⟨fun _ => closed, fun _ => .refl model⟩, fun _ => rfl,
      fun opens => absurd opens closed⟩
  · have before : model.isEventDriven = false := by
      cases write with
      | event => simp [isEventDriven, opens.1]
      | _ => cases opens
    rw [changed]
    refine ⟨⟨fun same => ?_, fun closed => absurd opens closed⟩, fun closed => absurd opens closed,
      fun _ => ⟨before, rfl, ?_, rfl, rfl, rfl, rfl⟩⟩
    · have driven := same.isEventDriven
      rw [before] at driven
      cases driven
    · intro state jointAction next jointObservation
      simp only [eventObservation]
      split
      · exact zero _ _
      · rfl

/-- No probability is 2. Writing one as a transition changes nothing. -/
theorem refused_write_changes_nothing_iff_transition :
    ∃ (model : Model Rat) (fault : Fault), create 1 [⟨1, 1⟩] .dense = .ok model ∧
      (model.write (.transition 0 0 0 2)).1 = .error fault ∧
        (model.write (.transition 0 0 0 2)).2.SameAnswers model := by
  obtain ⟨model, created⟩ :
      ∃ model : Model Rat, create 1 [⟨1, 1⟩] .dense = .ok model := ⟨_, rfl⟩
  have refused : (model.write (.transition 0 0 0 2)).1 =
      .error (.unsound (.cell (Weight.text (2 : Rat)) 0 0)) := by
    cases created
    rfl
  exact ⟨model, _, created, refused,
    (refused_write_changes_nothing_iff model _ refused).1.mpr id⟩

/-- Writing it as the first observation by event leaves a model that is driven by events. -/
theorem refused_event_drives_model :
    ∃ (model : Model Rat) (fault : Fault), create 1 [⟨1, 1⟩] .dense = .ok model ∧
      (model.write (.event 0 0 0 0 2)).1 = .error fault ∧
        model.isEventDriven = false ∧ (model.write (.event 0 0 0 0 2)).2.isEventDriven = true ∧
          ¬ (model.write (.event 0 0 0 0 2)).2.SameAnswers model := by
  obtain ⟨model, created⟩ :
      ∃ model : Model Rat, create 1 [⟨1, 1⟩] .dense = .ok model := ⟨_, rfl⟩
  have refused : (model.write (.event 0 0 0 0 2)).1 =
      .error (.unsound (.cell (Weight.text (2 : Rat)) 0 0)) := by
    cases created
    rfl
  have before : model.isEventDriven = false := by
    cases created
    rfl
  have after : (model.write (.event 0 0 0 0 2)).2.isEventDriven = true := by
    cases created
    rfl
  refine ⟨model, _, created, refused, before, after, fun same => ?_⟩
  rw [same.isEventDriven, before] at after
  cases after

end Model

end TeamPlanning
