import TeamPlanning.Proofs.Planner.Answers
import TeamPlanning.Proofs.Planner.PathSum
import TeamPlanning.Proofs.Prediction

/-! # Observing events

A planner may take observations to depend on the state left behind. If those of its process do not,
then this setting changes no belief, no probability, and nothing else that the planner answers. -/

set_option autoImplicit false

namespace TeamPlanning

variable {W : Type} [Weight W] {process : DecisionProcess W}

/-- Every update of a belief comes out the same with events as without. -/
def DecisionProcess.IgnoresEvents (process : DecisionProcess W) : Prop :=
  ∀ (belief : Belief W) (jointAction jointObservation : Nat) (event event' : Bool),
    belief.update process jointAction jointObservation event =
      belief.update process jointAction jointObservation event'

theorem Model.ignoresEvents {model : Model Rat} (plain : model.isEventDriven = false) :
    model.process.IgnoresEvents := by
  intro belief jointAction jointObservation event event'
  have same : Belief.propagate model.process belief.support jointAction jointObservation true =
      Belief.propagate model.process belief.support jointAction jointObservation false :=
    Belief.propagate_true_eq
      (fun state next => eventObservation_of_plain plain state jointAction next jointObservation)
      belief.support
  have either : ∀ event, belief.update model.process jointAction jointObservation event =
      belief.update model.process jointAction jointObservation false := by
    intro event
    cases event with
    | false => rfl
    | true => exact congrArg belief.adopt same
  rw [either event, either event']

namespace Planner

/-- The planner with observations taken by event or not, and the same workspace. -/
def observing (planner : Planner W) (event : Bool) : Planner W :=
  { planner with settings := planner.settings.observing event }

/-- Planners are created or refused alike, with the same workspace. -/
theorem create_observing (ignores : process.IgnoresEvents) (horizon : Horizon)
    (settings : Settings) (event : Bool) :
    create process horizon (settings.observing event) =
      (create process horizon settings).map (·.observing event) := by
  have updates : ((Inputs.mk process horizon settings).withEvents process.eventObservation
      event).UpdatesAs ⟨process, horizon, settings⟩ :=
    fun belief jointAction jointObservation => ignores belief jointAction jointObservation _ _
  have made : create process horizon (settings.observing event) =
      (create process horizon settings).map (·.withEvents process.eventObservation event) :=
    create_withEvents updates
  rw [made]
  cases created : create process horizon settings with
  | error fault => rfl
  | ok planner =>
      have created : (Inputs.mk process horizon settings).create = .ok planner := created
      obtain rfl : planner.process = process := congrArg Inputs.process (inputs_of_create created)
      rfl

theorem answer_observing {planner : Planner W} (ignores : planner.process.IgnoresEvents)
    (event : Bool) {α : Type} (query : Query W α) :
    (planner.observing event).answer query = planner.answer query := by
  have updates : (planner.withEvents planner.process.eventObservation event).inputs.UpdatesAs
      planner.inputs :=
    fun belief jointAction jointObservation => ignores belief jointAction jointObservation _ _
  exact answer_withEvents updates query

/-- Planners for the same inputs give the same answers, whether or not they observe events. -/
theorem Serves.answers_observing (ignores : process.IgnoresEvents) {stages : Nat}
    {settings : Settings} {event : Bool} {planner planner' : Planner W}
    (serves : Serves process stages settings planner)
    (serves' : Serves process stages (settings.observing event) planner') {α : Type}
    (query : Query W α) : planner'.answer query = planner.answer query := by
  obtain ⟨fresh, requests, made, rfl⟩ := serves.exists_holdAll
  obtain ⟨fresh', requests', made', rfl⟩ := serves'.exists_holdAll
  have created : (Inputs.mk process (.finite stages) settings).create = .ok fresh := made
  have created' : (Inputs.mk process (.finite stages) (settings.observing event)).create =
      .ok fresh' := made'
  obtain rfl : fresh.process = process := congrArg Inputs.process (inputs_of_create created)
  rw [create_observing ignores, made] at made'
  obtain rfl : fresh.observing event = fresh' := Except.ok.inj made'
  rw [(continues_holdAll created requests).answer, (continues_holdAll created' requests').answer]
  exact answer_observing ignores event query

/-- What an update moves to a state is the numerator of Bayes' rule, with or without events. If the
model is not driven by events, then both ways of prediction list the same masses, updates come out
the same, planners are created alike, and no answer tells whether they observe events. -/
theorem prediction_modes {model : Model Rat} (built : model.Built) :
    (∀ support : List (Nat × Rat), (∀ entry ∈ support, 0 ≤ entry.2) →
      ∀ jointAction jointObservation next,
        Belief.massAt (Belief.propagate model.process support jointAction jointObservation false)
            next =
          model.observation jointAction next jointObservation *
            (support.map fun entry => model.transition entry.1 jointAction next * entry.2).sum ∧
        Belief.massAt (Belief.propagate model.process support jointAction jointObservation true)
            next =
          (support.map fun entry =>
            model.eventObservation entry.1 jointAction next jointObservation *
              model.transition entry.1 jointAction next * entry.2).sum) ∧
    (model.isEventDriven = false →
      (∀ support jointAction jointObservation,
        Belief.propagate model.process support jointAction jointObservation true =
          Belief.propagate model.process support jointAction jointObservation false) ∧
      (∀ (belief : Belief Rat) (jointAction jointObservation : Nat),
        belief.update model.process jointAction jointObservation true =
          belief.update model.process jointAction jointObservation false) ∧
      (∀ (horizon : Horizon) (settings : Settings),
        create model.process horizon (settings.observing true) =
          (create model.process horizon (settings.observing false)).map (·.observing true)) ∧
      ∀ (stages : Nat) (settings : Settings) (planner planner' : Planner Rat),
        Serves model.process stages (settings.observing false) planner →
        Serves model.process stages (settings.observing true) planner' →
        ∀ {α : Type} (query : Query Rat α), planner'.answer query = planner.answer query) := by
  refine ⟨fun support nonneg => built.sound.massAt_propagate nonneg, fun plain => ?_⟩
  have ignores := Model.ignoresEvents plain
  refine ⟨fun support jointAction jointObservation => ?_,
    fun belief jointAction jointObservation => ignores belief jointAction jointObservation _ _,
    fun horizon settings => create_observing ignores horizon (settings.observing false) true,
    fun stages settings planner planner' serves serves' _ query => ?_⟩
  · exact Belief.propagate_true_eq
      (fun state next => Model.eventObservation_of_plain plain state jointAction next
        jointObservation) support
  · exact serves.answers_observing ignores serves' query

/-- The drawn model is not driven by events. With and without them, the history numbered 7 has the
same probability. -/
theorem prediction_modes_drawn :
    ∃ (model : Model Rat) (planner planner' : Planner Rat), model.Built ∧
      model.isEventDriven = false ∧
      Serves model.process 3 (Settings.nothing.observing false) planner ∧
      Serves model.process 3 (Settings.nothing.observing true) planner' ∧
        planner'.probability 7 0 none none = planner.probability 7 0 none none ∧
        Belief.massAt (Belief.propagate model.process [(0, 1 / 4), (1, 3 / 4)] 1 0 true) 1 =
          Belief.massAt (Belief.propagate model.process [(0, 1 / 4), (1, 3 / 4)] 1 0 false) 1 := by
  obtain ⟨model, planner, built, made, answers⟩ := exists_drawn
  have plain : model.isEventDriven = false :=
    Except.ok.inj (answers (fun model _ => .ok model.isEventDriven) false (by decide +kernel))
  have created : create model.process (.finite 3) (Settings.nothing.observing true) =
      .ok (planner.observing true) := by
    rw [create_observing (Model.ignoresEvents plain), made]
    rfl
  obtain ⟨_, coincide⟩ := prediction_modes built
  obtain ⟨listed, _, _, unchanged⟩ := coincide plain
  refine ⟨model, planner, planner.observing true, built, plain, .created made, .created created,
    ?_, congrArg (Belief.massAt · 1) (listed _ _ _)⟩
  exact unchanged 3 Settings.nothing planner _ (.created made) (.created created)
    (.probability 7 0 none none)

end Planner

end TeamPlanning
