import TeamPlanning.Model.Basic
import TeamPlanning.Proofs.History.Modes
import TeamPlanning.Proofs.Planner.Service
import TeamPlanning.Weight.Rational

/-! # Modes of a planner

Which planners can be created depends on the modes in which histories are kept in one way only: if
several stages are planned for, and an agent has no symbols of a kind, then the histories of that
kind cannot be enumerated, neither the agents' own nor the joint ones. -/

set_option autoImplicit false

namespace TeamPlanning

/-- The settings with every history in closed form. -/
def Settings.inClosedForm (settings : Settings) : Settings :=
  { settings with individual := .const false, joint := .const false }

namespace Planner

variable {W : Type} [Weight W] {process : DecisionProcess W} {stages : Nat} {settings : Settings}

/-- Histories of the kind are to be enumerated, but some agent's stop short. -/
def Stalls (process : DecisionProcess W) (stages : Nat) (settings : Settings) (c : HistoryKind) :
    Prop :=
  (settings.individual.get c = true ∨ settings.joint.get c = true) ∧
    ∃ alphabet ∈ process.alphabets, alphabet.StopsShort c stages

theorem validate_of_not_cached (uncached : settings.cachedBeliefs = false) :
    settings.validate = .ok () := by
  simp [Settings.validate, uncached]

/-- Once the settings pass their check, nothing but the spaces decides. -/
theorem exists_create_iff_of_valid (planned : 1 ≤ stages) (valid : settings.validate = .ok ()) :
    (∃ planner, create process (.finite stages) settings = .ok planner) ↔
      ∀ c, ∃ space : TeamSpace c, TeamSpace.create process.alphabets stages
        (settings.individual.get c) (settings.joint.get c) = .ok space := by
  constructor
  · intro given
    obtain ⟨planner, made⟩ := given
    obtain ⟨workspace?, demanded, _⟩ := bind_eq_ok_iff.mp made
    obtain ⟨_, _, workspace, _, built⟩ := demanded_finite.mp demanded
    exact fun c => ⟨_, (build_eq_ok_iff.mp built).1 c⟩
  · intro each
    obtain ⟨observation, first⟩ := each .observation
    obtain ⟨action, second⟩ := each .action
    obtain ⟨actionObservation, third⟩ := each .actionObservation
    have built : Workspace.build process stages settings = .ok ⟨observation, action,
        actionObservation, if settings.joint.actionObservation then
          some (Workspace.realize process settings actionObservation) else none⟩ := by
      refine build_eq_ok_iff.mpr ⟨fun c => ?_, rfl⟩
      cases c with
      | observation => exact first
      | action => exact second
      | actionObservation => exact third
    have demanded := demanded_finite.mpr
      ⟨valid, planned, _, rfl, built⟩
    exact ⟨_, bind_of_eq_ok demanded _⟩

theorem exists_create_iff (planned : 1 ≤ stages) (uncached : settings.cachedBeliefs = false) :
    (∃ planner, create process (.finite stages) settings = .ok planner) ↔
      ∀ c, ∃ space : TeamSpace c, TeamSpace.create process.alphabets stages
        (settings.individual.get c) (settings.joint.get c) = .ok space :=
  exists_create_iff_of_valid planned (validate_of_not_cached uncached)

theorem exists_create_inClosedForm_iff (planned : 1 ≤ stages)
    (uncached : settings.cachedBeliefs = false) :
    (∃ planner, create process (.finite stages) settings.inClosedForm = .ok planner) ↔
      ∀ c, ∃ described : TeamSpace c,
        TeamSpace.create process.alphabets stages false false = .ok described := by
  have uncached' : settings.inClosedForm.cachedBeliefs = false := uncached
  rw [exists_create_iff planned uncached']
  refine forall_congr' fun c => ?_
  cases c <;> exact Iff.rfl

omit [Weight W] in
theorem exists_space_iff (planned : 1 ≤ stages) (c : HistoryKind) :
    (∃ space : TeamSpace c, TeamSpace.create process.alphabets stages (settings.individual.get c)
        (settings.joint.get c) = .ok space) ↔
      (∃ described : TeamSpace c,
        TeamSpace.create process.alphabets stages false false = .ok described) ∧
        ¬ Stalls process stages settings c := by
  constructor
  · intro given
    obtain ⟨space, created⟩ := given
    obtain ⟨described, known⟩ := TeamSpace.exists_create_lazy created
    refine ⟨⟨described, known⟩, fun stalls => ?_⟩
    rw [TeamSpace.create_of_stopsShort planned known stalls.1 stalls.2] at created
    cases created
  · intro given
    obtain ⟨⟨described, known⟩, runs⟩ := given
    exact TeamSpace.exists_create_of_closedForm planned known runs

theorem create_eq_error_of_stalls (planned : 1 ≤ stages) (uncached : settings.cachedBeliefs = false)
    (known : ∀ c, ∃ described : TeamSpace c,
      TeamSpace.create process.alphabets stages false false = .ok described)
    (stalled : ∃ c, Stalls process stages settings c) :
    ∃ c, Stalls process stages settings c ∧
      create process (.finite stages) settings = .error (.inconsistent c) := by
  have refused : ∀ c, Stalls process stages settings c →
      TeamSpace.create (c := c) process.alphabets stages (settings.individual.get c)
        (settings.joint.get c) = .error (.inconsistent c) := by
    intro c stalls
    obtain ⟨described, known⟩ := known c
    exact TeamSpace.create_of_stopsShort planned known stalls.1 stalls.2
  have accepted : ∀ c, ¬ Stalls process stages settings c → ∃ space : TeamSpace c,
      TeamSpace.create process.alphabets stages (settings.individual.get c)
        (settings.joint.get c) = .ok space :=
    fun c runs => (exists_space_iff planned c).mpr ⟨known c, runs⟩
  have answered : ∀ fault, Workspace.build process stages settings = .error fault →
      create process (.finite stages) settings = .error fault := by
    intro fault failed
    have demanded : Workspace.demanded process (.finite stages) settings = .error fault := by
      obtain ⟨further, rfl⟩ := Nat.exists_eq_add_of_le' planned
      refine (bind_of_eq_ok (validate_of_not_cached uncached) _).trans ?_
      exact bind_of_eq_error failed _
    exact bind_of_eq_error demanded _
  -- The spaces are created one after the other, so the first kind that stalls is the one to fail.
  by_cases first : Stalls process stages settings .observation
  · exact ⟨_, first, answered _ (bind_of_eq_error (refused _ first) _)⟩
  · obtain ⟨_, observed⟩ := accepted _ first
    by_cases second : Stalls process stages settings .action
    · refine ⟨_, second, answered _ ((bind_of_eq_ok observed _).trans ?_)⟩
      exact bind_of_eq_error (refused _ second) _
    · obtain ⟨_, acted⟩ := accepted _ second
      have third : Stalls process stages settings .actionObservation := by
        obtain ⟨c, stalls⟩ := stalled
        cases c with
        | observation => exact absurd stalls first
        | action => exact absurd stalls second
        | actionObservation => exact stalls
      refine ⟨_, third, answered _ ((bind_of_eq_ok observed _).trans ?_)⟩
      exact (bind_of_eq_ok acted _).trans (bind_of_eq_error (refused _ third) _)

/-- Without cached beliefs, whether a planner can be created does not depend on the modes of its
histories, unless there is a kind whose enumeration stalls: then it can be created in closed form
only, and the fault says which kind it is. -/
theorem exists_create_iff_inClosedForm (process : DecisionProcess W) (planned : 1 ≤ stages)
    (uncached : settings.cachedBeliefs = false) :
    ((∃ planner, create process (.finite stages) settings = .ok planner) ↔
      (∃ planner, create process (.finite stages) settings.inClosedForm = .ok planner) ∧
        ∀ c, ¬ Stalls process stages settings c) ∧
      ((∃ planner, create process (.finite stages) settings.inClosedForm = .ok planner) →
        (∃ c, Stalls process stages settings c) →
          ∃ c, Stalls process stages settings c ∧
            create process (.finite stages) settings = .error (.inconsistent c)) := by
  rw [exists_create_iff planned uncached, exists_create_inClosedForm_iff planned uncached]
  refine ⟨?_, create_eq_error_of_stalls planned uncached⟩
  rw [← forall_and]
  exact forall_congr' fun c => exists_space_iff planned c

end Planner

/-- The settings that enumerate action histories and keep all others in closed form. -/
def Settings.enumeratingActions : Settings :=
  { Settings.nothing with
    individual := ⟨false, true, false⟩
    joint := ⟨false, true, false⟩ }

namespace Planner

/-- An agent that acts but observes nothing, over two stages: enumerating the actions is no trouble. -/
theorem exists_create_iff_inClosedForm_acting :
    ∃ model : Model Rat, Model.create 1 [⟨1, 0⟩] .dense = .ok model ∧ 1 ≤ 2 ∧
      Settings.enumeratingActions.cachedBeliefs = false ∧
        ∃ planner, create model.process (.finite 2) .enumeratingActions = .ok planner := by
  obtain ⟨model, made⟩ : ∃ model : Model Rat, Model.create 1 [⟨1, 0⟩] .dense = .ok model :=
    ⟨_, rfl⟩
  have described : ∃ planner, create model.process (.finite 2)
      Settings.enumeratingActions.inClosedForm = .ok planner := by
    cases made
    apply exists_of_isOk
    decide +kernel
  have runs : ∀ c, ¬ Stalls model.process 2 .enumeratingActions c := by
    intro c stalls
    cases made
    obtain ⟨eager, alphabet, member, _, barren⟩ := stalls
    obtain rfl : alphabet = ⟨1, 0⟩ := List.mem_singleton.mp member
    cases c with
    | observation => simp [Settings.enumeratingActions, PerKind.get] at eager
    | action => exact barren Nat.one_pos
    | actionObservation => simp [Settings.enumeratingActions, PerKind.get] at eager
  exact ⟨model, made, by decide, rfl,
    (exists_create_iff_inClosedForm model.process (by decide) rfl).1.mpr ⟨described, runs⟩⟩

/-- The same agent, but everything is to be enumerated: only the closed form can be had. -/
theorem enumeration_needs_observations :
    ∃ model : Model Rat, Model.create 1 [⟨1, 0⟩] .dense = .ok model ∧
      Settings.standard.cachedBeliefs = false ∧
        (∃ planner, create model.process (.finite 2) Settings.standard.inClosedForm =
          .ok planner) ∧
          create model.process (.finite 2) Settings.standard =
            .error (.inconsistent .observation) := by
  obtain ⟨model, made⟩ : ∃ model : Model Rat, Model.create 1 [⟨1, 0⟩] .dense = .ok model :=
    ⟨_, rfl⟩
  refine ⟨model, made, rfl, ?_, ?_⟩
  · cases made
    apply exists_of_isOk
    decide +kernel
  · cases made
    rfl

end Planner

end TeamPlanning
