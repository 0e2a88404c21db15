import TeamPlanning.Proofs.Planner.Answers
import TeamPlanning.Proofs.Planner.JointPolicies
import TeamPlanning.Proofs.Storage.Successors

/-! # What a model adds to its dynamics

A model reads successors off its rows and keeps the alphabets of its agents. A process that is told
nothing but the dynamics of the model scans all states and asks every agent, and finds the same. They
differ in observations by event only, so planners that take none cannot be told apart. -/

set_option autoImplicit false

namespace TeamPlanning

variable {W : Type}

/-- The processes differ in observations by event at most. -/
def DecisionProcess.SameButEvents (process process' : DecisionProcess W) : Prop :=
  process' = { process with eventObservation := process'.eventObservation }

/-- The inputs differ in observations by event at most, and these are not taken. -/
structure Inputs.SameButEvents (inputs inputs' : Inputs W) : Prop where
  process : inputs.process.SameButEvents inputs'.process
  horizon : inputs'.horizon = inputs.horizon
  settings : inputs'.settings = inputs.settings
  unobserved : inputs.settings.eventObservability = false

namespace Planner

/-- The same request to planners for processes that differ in observations by event at most. Settings
that pass their check do not ask for these to be taken. -/
inductive Request.SameButEvents : Request W → Request W → Prop where
  | setProcess {process process' : DecisionProcess W} (same : process.SameButEvents process') :
      SameButEvents (.setProcess process) (.setProcess process')
  | setHorizon (horizon : Horizon) : SameButEvents (.setHorizon horizon) (.setHorizon horizon)
  | setSettings {settings : Settings}
      (unobserved : settings.validate = .ok () → settings.eventObservability = false) :
      SameButEvents (.setSettings settings) (.setSettings settings)
  | hold (index : Nat) : SameButEvents (.hold index) (.hold index)

/-- The planners have the same workspace, and inputs that differ in observations by event at most. -/
structure SameButEvents (planner planner' : Planner W) : Prop where
  inputs : planner.inputs.SameButEvents planner'.inputs
  workspace? : planner'.workspace? = planner.workspace?

/-- The requests are made in the same order. -/
def SameRequests : List (Request W) → List (Request W) → Prop :=
  List.Forall₂ Request.SameButEvents

end Planner

variable [Weight W]

theorem Model.Made.sameButEvents (laws : Weight.Comparable W) {storage : Storage} {model : Model W}
    (made : Made storage model) : model.process.SameButEvents model.dynamics.process := by
  have alphabets : model.process.alphabets = model.dynamics.process.alphabets :=
    DecisionProcess.coherent_of_model model
  have successors : model.process.successors = model.dynamics.process.successors := by
    funext state jointAction
    exact made.successors_eq laws state jointAction
  have same : { model.process with eventObservation := model.dynamics.process.eventObservation } =
      { model.dynamics.process with
        successors := model.process.successors
        alphabets := model.process.alphabets } := rfl
  rw [successors, alphabets] at same
  exact same.symm

namespace Inputs.SameButEvents

variable {inputs inputs' : Inputs W} (same : inputs.SameButEvents inputs')
include same

omit [Weight W] in
theorem eq_withEvents : inputs' = inputs.withEvents inputs'.process.eventObservation false := by
  obtain ⟨process, horizon, settings⟩ := inputs
  obtain ⟨process', horizon', settings'⟩ := inputs'
  obtain ⟨rewritten, rfl, rfl, unobserved⟩ := same
  have quiet : settings'.observing false = settings' := by
    rw [← unobserved]
    rfl
  rw [withEvents, quiet]
  exact congrArg (Inputs.mk · horizon' settings') rewritten

/-- An update that takes no observations by event does not read them. -/
theorem updatesAs : inputs'.UpdatesAs inputs := by
  intro belief jointAction jointObservation
  rw [same.settings, same.unobserved, same.process]
  rfl

theorem create : inputs'.create =
    inputs.create.map (·.withEvents inputs'.process.eventObservation false) := by
  have updates := same.updatesAs
  rw [same.eq_withEvents] at updates ⊢
  exact Planner.create_withEvents updates

end Inputs.SameButEvents

namespace Planner

/-- Nobody can tell the planners apart by what they answer, nor by what becomes of a request. -/
structure Indistinguishable (planner planner' : Planner W) : Prop where
  answers : planner'.SameAnswers planner
  outcome : ∀ request request' : Request W, request.SameButEvents request' →
    (planner'.serve request').1 = (planner.serve request).1

/-- Planners are refused for the same fault, or they cannot be told apart whatever is requested of
both. -/
inductive CreatedAlike : Except Fault (Planner W) → Except Fault (Planner W) → Prop where
  | refused (fault : Fault) : CreatedAlike (.error fault) (.error fault)
  | created {planner planner' : Planner W}
      (alike : ∀ requests requests', SameRequests requests requests' →
        (planner.serveAll requests).Indistinguishable (planner'.serveAll requests')) :
      CreatedAlike (.ok planner) (.ok planner')

variable {planner planner' : Planner W} {inputs inputs' : Inputs W}

omit [Weight W] in
theorem SameButEvents.eq_withEvents (same : planner.SameButEvents planner') :
    planner' = planner.withEvents planner'.process.eventObservation false := by
  obtain ⟨process, horizon, settings, workspace?⟩ := planner
  obtain ⟨process', horizon', settings', other?⟩ := planner'
  obtain ⟨inputs, workspaces⟩ := same
  have rewritten := inputs.eq_withEvents
  injection rewritten with process horizon settings
  exact congr (congr (congr (congrArg Planner.mk process) horizon) settings) workspaces

theorem SameButEvents.sameAnswers (same : planner.SameButEvents planner') :
    planner'.SameAnswers planner := by
  have updates := same.inputs.updatesAs
  have quiet : planner.settings.observing false = planner.settings := by
    rw [← same.inputs.unobserved]
    rfl
  have shown : (planner.withEvents planner'.process.eventObservation false).text = planner.text := by
    simp only [text, withEvents, quiet]
  have held : ∀ index, ((planner.withEvents planner'.process.eventObservation false).hold index).1 =
      (planner.hold index).1 := by
    intro index
    simp only [hold, withEvents]
    cases planner.workspace? <;> rfl
  rw [same.eq_withEvents] at updates ⊢
  exact { SameAnswers.refl planner with
    answer := answer_withEvents updates
    hold := held
    text := shown }

theorem sameButEvents_withEvents (same : inputs.SameButEvents inputs')
    (created : inputs.create = .ok planner) :
    planner.SameButEvents (planner.withEvents inputs'.process.eventObservation false) := by
  obtain rfl := inputs_of_create created
  constructor
  case inputs => rwa [same.eq_withEvents] at same
  case workspace? => rfl

/-- Where an input is replaced by an alike one, everything is built anew for both or for neither. -/
theorem refresh_alike (same : inputs.SameButEvents inputs')
    (workspace? other? : Option (Workspace W)) :
    let refreshed := (Planner.mk inputs.process inputs.horizon inputs.settings workspace?).refresh
    let refreshed' :=
      (Planner.mk inputs'.process inputs'.horizon inputs'.settings other?).refresh
    refreshed'.1 = refreshed.1 ∧ refreshed.2.SameButEvents refreshed'.2 := by
  simp only [refresh_eq, same.create]
  cases created : inputs.create with
  | error fault => exact ⟨rfl, same, rfl⟩
  | ok fresh => exact ⟨rfl, sameButEvents_withEvents same created⟩

/-- The same request has the same outcome, and leaves the planners alike. -/
theorem SameButEvents.serve (same : planner.SameButEvents planner') {request request' : Request W}
    (alike : request.SameButEvents request') :
    (planner'.serve request').1 = (planner.serve request).1 ∧
      (planner.serve request).2.SameButEvents (planner'.serve request').2 := by
  obtain ⟨inputs, workspaces⟩ := same
  cases alike with
  | @setProcess process process' rewritten =>
      have inputs : Inputs.SameButEvents { planner.inputs with process }
          { planner'.inputs with process := process' } := { inputs with process := rewritten }
      exact refresh_alike inputs _ _
  | setHorizon horizon =>
      have inputs : Inputs.SameButEvents { planner.inputs with horizon }
          { planner'.inputs with horizon } := { inputs with horizon := rfl }
      exact refresh_alike inputs _ _
  | @setSettings settings unobserved =>
      simp only [Planner.serve, setSettings]
      cases checked : settings.validate with
      | error fault => exact ⟨rfl, inputs, workspaces⟩
      | ok _ =>
          have inputs : Inputs.SameButEvents { planner.inputs with settings }
              { planner'.inputs with settings } :=
            { inputs with settings := rfl, unobserved := unobserved checked }
          exact refresh_alike inputs _ _
  | hold index =>
      -- A record is made from the workspace alone; only the fault of having none names the horizon.
      simp only [Planner.serve, Planner.hold, workspaces]
      cases built : planner.workspace? with
      | none =>
          have horizons : planner'.horizon = planner.horizon := inputs.horizon
          rw [horizons]
          exact ⟨rfl, inputs, workspaces⟩
      | some workspace => exact ⟨rfl, inputs, rfl⟩

theorem SameButEvents.serveAll (same : planner.SameButEvents planner')
    {requests requests' : List (Request W)} (alike : SameRequests requests requests') :
    (planner.serveAll requests).SameButEvents (planner'.serveAll requests') := by
  induction alike generalizing planner planner' with
  | nil => exact same
  | cons first _ ih => exact ih (same.serve first).2

theorem SameButEvents.indistinguishable (same : planner.SameButEvents planner') :
    planner.Indistinguishable planner' :=
  ⟨same.sameAnswers, fun _ _ alike => (same.serve alike).1⟩

theorem createdAlike (same : inputs.SameButEvents inputs') :
    CreatedAlike inputs.create inputs'.create := by
  rw [same.create]
  cases created : inputs.create with
  | error fault => exact .refused fault
  | ok planner =>
      have start := sameButEvents_withEvents same created
      exact .created fun requests requests' alike => (start.serveAll alike).indistinguishable

/-- The successors and alphabets that a model keeps, in either storage and after any writes, are
those that its dynamics give. So while no observations are taken by event, planners for the model
cannot be told apart from planners that are told nothing but its dynamics. -/
theorem overrides_unobservable (laws : Weight.Comparable W) {storage : Storage} {model : Model W}
    (made : Model.Made storage model) :
    (∀ state jointAction, model.successors state jointAction =
      ((List.range model.states).map fun next =>
        (next, model.transition state jointAction next)).filter (Weight.positive ·.2)) ∧
    (model.alphabets = (List.range model.dynamics.agents).map fun agent =>
      ⟨model.dynamics.actions agent, model.dynamics.observations agent⟩) ∧
    model.process.SameButEvents model.dynamics.process ∧
    ∀ (horizon : Horizon) (settings : Settings), settings.eventObservability = false →
      CreatedAlike (create model.process horizon settings)
        (create model.dynamics.process horizon settings) := by
  have same := made.sameButEvents laws
  refine ⟨made.successors_eq laws, DecisionProcess.coherent_of_model model, same,
    fun horizon settings unobserved => ?_⟩
  have inputs : Inputs.SameButEvents ⟨model.process, horizon, settings⟩
      ⟨model.dynamics.process, horizon, settings⟩ := ⟨same, rfl, rfl, unobserved⟩
  exact createdAlike inputs

/-- The model made by the rewrites moves to one state only, and its observation on that way is three
times out of four one that its dynamics never give. -/
theorem overrides_unobservable_rewrites :
    ∃ start : Model Rat, Model.create 2 [⟨1, 2⟩] .sparse = .ok start ∧
      let model := (start.writeAll Model.rewrites).2
      Model.Made .sparse model ∧
        model.process.eventObservation 0 0 1 0 = 3 / 4 ∧
        model.dynamics.process.eventObservation 0 0 1 0 = 0 ∧
        ((List.range model.states).map fun next =>
          (next, model.transition 0 0 next)).filter (Weight.positive ·.2) = [(1, 1 / 4)] ∧
        (create model.process (.finite 2) .nothing).isOk = true ∧
        CreatedAlike (create model.process (.finite 2) .nothing)
          (create model.dynamics.process (.finite 2) .nothing) := by
  obtain ⟨start, created⟩ : ∃ start : Model Rat, Model.create 2 [⟨1, 2⟩] .sparse = .ok start :=
    ⟨_, rfl⟩
  have made := (Model.Made.created created).writeAll Model.rewrites
  obtain ⟨scanned, _, _, alike⟩ := overrides_unobservable Weight.comparable_rat made
  refine ⟨start, created, made, ?_, ?_, ?_, ?_, alike (.finite 2) .nothing rfl⟩
  · cases created
    decide +kernel
  · cases created
    decide +kernel
  · rw [← scanned 0 0]
    cases created
    decide +kernel
  · cases created
    decide +kernel

end Planner

end TeamPlanning
