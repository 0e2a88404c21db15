import TeamPlanning.Planner.Policy
import TeamPlanning.Planner.Probability
import TeamPlanning.Proofs.History.Reading

/-! # Planners in service

A planner serves the inputs from which its workspace was built, whichever records were made on
demand since. Its answers follow from the inputs alone. -/

set_option autoImplicit false

namespace TeamPlanning.Planner

variable {W : Type} [Weight W]

/-- The planner was created for the inputs, or its workspace was built anew from them; any number of
records has been asked for since. -/
inductive Serves (process : DecisionProcess W) (stages : Nat) (settings : Settings) :
    Planner W → Prop where
  | created {planner : Planner W}
      (made : create process (.finite stages) settings = .ok planner) :
      Serves process stages settings planner
  | rebuilt {workspace? : Option (Workspace W)} {planner : Planner W}
      (made : refresh ⟨process, .finite stages, settings, workspace?⟩ = (.ok (), planner)) :
      Serves process stages settings planner
  | held {planner : Planner W} (index : Nat) (serves : Serves process stages settings planner) :
      Serves process stages settings (planner.hold index).2

/-- What a workspace offers for a number of stages, told by the inputs. -/
structure Ready (planner : Planner W) (stages : Nat) (workspace : Workspace W) : Prop where
  built : planner.workspace? = some workspace
  planned : 1 ≤ stages
  valid : planner.settings.validate = .ok ()
  intact : workspace.actionObservation.Intact planner.process.alphabets stages
  observation : workspace.observation.team.Reads stages
  joint : Alphabet.joint planner.process.alphabets = .ok workspace.observation.team.alphabet
  realizations : workspace.realizations? =
    if planner.settings.joint.actionObservation then
      some (Workspace.realize planner.process planner.settings workspace.actionObservation)
    else none

variable {process : DecisionProcess W} {stages : Nat} {settings : Settings} {planner : Planner W}
  {workspace : Workspace W}

theorem demanded_finite {workspace? : Option (Workspace W)} :
    Workspace.demanded process (.finite stages) settings = .ok workspace? ↔
      settings.validate = .ok () ∧ 1 ≤ stages ∧
        ∃ workspace, workspace? = some workspace ∧
          Workspace.build process stages settings = .ok workspace := by
  constructor
  · intro demanded
    obtain ⟨_, valid, demanded⟩ := bind_eq_ok_iff.mp demanded
    cases stages with
    | zero => cases demanded
    | succ stages =>
        obtain ⟨workspace, built, made⟩ := bind_eq_ok_iff.mp demanded
        cases made
        exact ⟨valid, Nat.succ_pos stages, workspace, rfl, built⟩
  · intro given
    obtain ⟨valid, planned, workspace, rfl, built⟩ := given
    cases stages with
    | zero => cases planned
    | succ stages =>
        refine (bind_of_eq_ok valid _).trans ?_
        exact bind_of_eq_ok built _

theorem build_eq_ok_iff : Workspace.build process stages settings = .ok workspace ↔
    (∀ c, TeamSpace.create process.alphabets stages (settings.individual.get c)
        (settings.joint.get c) = .ok (workspace.space c)) ∧
      workspace.realizations? =
        if settings.joint.actionObservation then
          some (Workspace.realize process settings workspace.actionObservation)
        else none := by
  rw [Workspace.build]
  simp only [bind_eq_ok_iff]
  constructor
  · intro given
    obtain ⟨observation, first, action, second, actionObservation, third, made⟩ := given
    cases made
    refine ⟨fun c => ?_, rfl⟩
    cases c with
    | observation => exact first
    | action => exact second
    | actionObservation => exact third
  · intro given
    obtain ⟨each, realized⟩ := given
    refine ⟨_, each .observation, _, each .action, _, each .actionObservation, ?_⟩
    simp only [Workspace.space, ← realized]
    rfl

theorem Ready.of_demanded {workspace? : Option (Workspace W)}
    (demanded : Workspace.demanded process (.finite stages) settings = .ok workspace?) :
    ∃ workspace, Ready ⟨process, .finite stages, settings, workspace?⟩ stages workspace := by
  obtain ⟨valid, planned, workspace, rfl, built⟩ := demanded_finite.mp demanded
  obtain ⟨each, realized⟩ := build_eq_ok_iff.mp built
  refine ⟨workspace, rfl, planned, valid, ?_, ?_, ?_, realized⟩
  · exact TeamSpace.Intact.of_create planned (each .actionObservation)
  · exact TeamSpace.reads_of_create planned (each .observation)
  · exact TeamSpace.joint_of_create (each .observation)

namespace Ready

variable (ready : planner.Ready stages workspace)
include ready

theorem space (c : HistoryKind) : planner.space c = .ok (workspace.space c) := by
  rw [Planner.space, Planner.workspace, ready.built]
  rfl

theorem reads : workspace.actionObservation.team.Reads stages := ready.intact.reads

theorem cached : planner.realizations? = workspace.realizations? := by
  rw [Planner.realizations?, ready.built]
  rfl

/-- A record made on demand leaves the realizations as they were: they depend on the alphabet and
the stages of the joint histories only. -/
theorem hold (index : Nat) : ∃ workspace', (planner.hold index).2.Ready stages workspace' := by
  have shape : (planner.hold index).2 = { planner with workspace? := some { workspace with
      actionObservation := (workspace.actionObservation.hold index).2 } } := by
    rw [Planner.hold, ready.built]
  have held := ready.intact.hold index
  have alphabet : (workspace.actionObservation.hold index).2.team.alphabet =
      workspace.actionObservation.team.alphabet :=
    Except.ok.inj (held.1.symm.trans ready.intact.1)
  have base : (workspace.actionObservation.hold index).2.team.base =
      workspace.actionObservation.team.base := by
    have based := held.reads.based
    rw [alphabet] at based
    exact Except.ok.inj (based.symm.trans ready.reads.based)
  rw [shape]
  refine ⟨_, rfl, ready.planned, ready.valid, held, ready.observation, ready.joint, ?_⟩
  simp only [ready.realizations, Workspace.realize, alphabet, base, held.reads.stages,
    ready.reads.stages]

end Ready

theorem Serves.ready (serves : Serves process stages settings planner) :
    planner.process = process ∧ planner.settings = settings ∧
      ∃ workspace, planner.Ready stages workspace := by
  induction serves with
  | created made =>
      obtain ⟨workspace?, demanded, made⟩ := bind_eq_ok_iff.mp made
      cases made
      exact ⟨rfl, rfl, Ready.of_demanded demanded⟩
  | rebuilt made =>
      rw [refresh] at made
      cases demanded : Workspace.demanded process (.finite stages) settings with
      | error fault =>
          rw [demanded] at made
          cases made
      | ok workspace? =>
          rw [demanded] at made
          cases made
          exact ⟨rfl, rfl, Ready.of_demanded demanded⟩
  | held index _ ih =>
      obtain ⟨same, same', workspace, ready⟩ := ih
      refine ⟨?_, ?_, ready.hold index⟩
      · rw [Planner.hold, ready.built, ← same]
      · rw [Planner.hold, ready.built, ← same']

theorem Serves.exists_create (serves : Serves process stages settings planner) :
    ∃ planner, create process (.finite stages) settings = .ok planner := by
  induction serves with
  | created made => exact ⟨_, made⟩
  | rebuilt made =>
      rw [refresh] at made
      cases demanded : Workspace.demanded process (.finite stages) settings with
      | error fault =>
          rw [demanded] at made
          cases made
      | ok workspace? =>
          refine ⟨⟨process, .finite stages, settings, workspace?⟩, ?_⟩
          rw [create, bind_of_eq_ok demanded]
          rfl
  | held index _ ih => exact ih

end TeamPlanning.Planner
