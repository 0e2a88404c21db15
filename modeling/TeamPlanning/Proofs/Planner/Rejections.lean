import TeamPlanning.Proofs.Planner.Answers
import TeamPlanning.Proofs.Planner.Modes

/-! # Settings that are turned down

Settings that fail their check leave a planner as it was. Settings that pass it are taken before it
is known whether a workspace can be built from them. Where none can, they stay, and the histories that
were at hand are lost. -/

set_option autoImplicit false

namespace TeamPlanning.Planner

variable {W : Type} [Weight W] {process : DecisionProcess W} {stages : Nat} {settings : Settings}
  {planner : Planner W} {workspace : Workspace W}

/-- Nobody can tell that anything was requested: the settings, the horizon and all answers are the
ones of before. -/
structure Undisturbed (after before : Planner W) : Prop where
  settings : after.settings = before.settings
  horizon : after.horizon = before.horizon
  answers : after.SameAnswers before

theorem Undisturbed.refl (planner : Planner W) : planner.Undisturbed planner :=
  ⟨rfl, rfl, .refl planner⟩

/-- The inputs once the settings are taken. -/
def withSettings (planner : Planner W) (settings : Settings) : Inputs W :=
  { planner.inputs with settings }

theorem setSettings_of_invalid (planner : Planner W) {fault : Fault}
    (invalid : settings.validate = .error fault) :
    planner.setSettings settings = (.error fault, planner) := by
  rw [setSettings, invalid]

/-- Settings that pass their check are taken, whether or not a workspace can be built. -/
theorem setSettings_of_valid (planner : Planner W) (valid : settings.validate = .ok ()) :
    planner.setSettings settings =
      match (planner.withSettings settings).create with
      | .ok fresh => (.ok (), fresh)
      | .error fault => (.error fault, (planner.withSettings settings).idle) := by
  rw [setSettings, valid]
  exact refresh_eq (planner.withSettings settings) planner.workspace?

/-- All that can become of a planner whose new settings are turned down. -/
inductive TurnedDown (planner : Planner W) (settings : Settings) (fault : Fault) :
    Planner W → Prop where
  | checked (invalid : settings.validate = .error fault) : TurnedDown planner settings fault planner
  | unbuilt (valid : settings.validate = .ok ())
      (failed : (planner.withSettings settings).create = .error fault) :
      TurnedDown planner settings fault (planner.withSettings settings).idle

theorem turnedDown {fault : Fault} (rejected : (planner.setSettings settings).1 = .error fault) :
    planner.TurnedDown settings fault (planner.setSettings settings).2 := by
  cases checked : settings.validate with
  | error fault' =>
      rw [setSettings_of_invalid planner checked] at rejected ⊢
      cases rejected
      exact .checked checked
  | ok _ =>
      rw [setSettings_of_valid planner checked] at rejected ⊢
      cases created : (planner.withSettings settings).create with
      | ok fresh =>
          rw [created] at rejected
          cases rejected
      | error fault' =>
          rw [created] at rejected
          cases rejected
          exact .unbuilt checked created

namespace TurnedDown

variable {after : Planner W} {fault : Fault}
  (turned : planner.TurnedDown settings fault after)
include turned

/-- Settings that were in force already cannot be built from again: there was no workspace to lose. -/
theorem eq_of_in_force (current : planner.Current) (inForce : settings = planner.settings) :
    after = planner := by
  cases turned with
  | checked invalid => rfl
  | unbuilt valid failed =>
      subst inForce
      have absent := current.refused fault failed
      obtain ⟨process, horizon, settings, workspace?⟩ := planner
      cases absent
      rfl

theorem eq_of_invalid (invalid : settings.validate = .error fault) : after = planner := by
  cases turned with
  | checked _ => rfl
  | unbuilt valid _ =>
      rw [valid] at invalid
      cases invalid

/-- Whoever is not disturbed is the same planner. -/
theorem undisturbed_iff (current : planner.Current) :
    (after.Undisturbed planner ↔ settings.validate = .error fault ∨ settings = planner.settings) ∧
      (after.Undisturbed planner → after = planner) := by
  have same : settings.validate = .error fault ∨ settings = planner.settings → after = planner := by
    intro kept
    rcases kept with invalid | inForce
    · exact turned.eq_of_invalid invalid
    · exact turned.eq_of_in_force current inForce
  have kept : after.Undisturbed planner →
      settings.validate = .error fault ∨ settings = planner.settings := by
    intro undisturbed
    cases turned with
    | checked invalid => exact .inl invalid
    | unbuilt valid failed => exact .inr undisturbed.settings
  refine ⟨⟨kept, fun given => ?_⟩, fun undisturbed => same (kept undisturbed)⟩
  rw [same given]
  exact .refl planner

theorem lost (disturbed : ¬ after.Undisturbed planner) :
    after.inputs = planner.withSettings settings ∧
      ∀ {α : Type} (query : Query W α), query.NeedsWorkspace planner.process →
        ∃ cause, after.answer query = .error (.meaningless cause) := by
  cases turned with
  | checked invalid => exact absurd (.refl planner) disturbed
  | unbuilt valid failed =>
      have absent : (planner.withSettings settings).idle.workspace? = none := rfl
      exact ⟨rfl, fun query needed => answer_of_absent absent needed⟩

end TurnedDown

/-! ## Planners with a workspace -/

theorem Current.exists_create (current : planner.Current)
    (built : planner.workspace? = some workspace) :
    ∃ fresh, planner.inputs.create = .ok fresh := by
  cases created : planner.inputs.create with
  | ok fresh => exact ⟨fresh, rfl⟩
  | error fault =>
      rw [current.refused fault created] at built
      cases built

theorem Current.exists_stages (current : planner.Current)
    (built : planner.workspace? = some workspace) :
    ∃ stages, planner.horizon = .finite stages := by
  cases horizon : planner.horizon with
  | finite stages => exact ⟨stages, rfl⟩
  | infinite =>
      obtain ⟨fresh, created⟩ := current.exists_create built
      obtain ⟨indices, same⟩ := current.created fresh created
      obtain ⟨workspace?, demanded, made⟩ := bind_eq_ok_iff.mp created
      cases made
      rw [inputs, horizon] at demanded
      obtain ⟨_, _, nothing⟩ := bind_eq_ok_iff.mp demanded
      cases nothing
      rw [same, holdAll_of_absent rfl] at built
      cases built

/-- Where a planner was created for some settings, others that pass their check are turned down just
if a kind of histories stalls. -/
theorem exists_create_iff_not_stalls (made : create process (.finite stages) settings = .ok planner)
    {settings' : Settings} (valid : settings'.validate = .ok ()) :
    (∃ fresh, create process (.finite stages) settings' = .ok fresh) ↔
      ∀ c, ¬ Stalls process stages settings' c := by
  obtain ⟨workspace?, demanded, _⟩ := bind_eq_ok_iff.mp made
  obtain ⟨_, planned, workspace, _, built⟩ := demanded_finite.mp demanded
  obtain ⟨each, _⟩ := build_eq_ok_iff.mp built
  rw [exists_create_iff_of_valid planned valid]
  refine forall_congr' fun c => ?_
  rw [exists_space_iff planned c, and_iff_right (TeamSpace.exists_create_lazy (each c))]

/-- A planner that has a workspace is not disturbed by settings that are turned down, just if no kind
of histories stalls under settings that pass their check. -/
theorem Current.undisturbed_iff_not_stalls (current : planner.Current)
    (built : planner.workspace? = some workspace) (horizon : planner.horizon = .finite stages)
    (settings : Settings) :
    (∀ fault, (planner.setSettings settings).1 = .error fault →
        (planner.setSettings settings).2.Undisturbed planner) ↔
      (settings.validate = .ok () → ∀ c, ¬ Stalls planner.process stages settings c) := by
  obtain ⟨fresh, created⟩ := current.exists_create built
  have made : create planner.process (.finite stages) planner.settings = .ok fresh := by
    rw [← horizon]
    exact created
  constructor
  · intro promise valid
    refine (exists_create_iff_not_stalls made valid).mp ?_
    rw [← horizon]
    cases renewed : (planner.withSettings settings).create with
    | ok fresh => exact ⟨fresh, renewed⟩
    | error fault =>
        have rejected := setSettings_of_valid planner valid
        rw [renewed] at rejected
        have undisturbed := promise fault (congrArg Prod.fst rejected)
        -- The settings were in force already, and these gave the workspace that is at hand.
        rw [rejected] at undisturbed
        have inForce : settings = planner.settings := undisturbed.settings
        subst inForce
        exact ⟨fresh, created⟩
  · intro runs fault rejected
    have turned := turnedDown rejected
    generalize (planner.setSettings settings).2 = after at turned ⊢
    cases turned with
    | checked invalid => exact .refl planner
    | unbuilt valid failed =>
        obtain ⟨fresh', made'⟩ := (exists_create_iff_not_stalls made valid).mpr (runs valid)
        have failed : create planner.process planner.horizon settings = .error fault := failed
        rw [horizon, made'] at failed
        cases failed

/-- After any requests, settings that are turned down leave a planner as it was if they fail their
check or were in force already, and not otherwise: then they are taken all the same, and all questions
about histories are refused. As long as there is a workspace, that comes to pass just if the settings
enumerate a kind of histories that stalls. -/
theorem rejected_settings_iff {horizon : Horizon} {start : Planner W}
    (made : create process horizon settings = .ok start) (requests : List (Request W))
    (settings' : Settings) :
    let before := start.serveAll requests
    let after := (before.setSettings settings').2
    (∀ fault, (before.setSettings settings').1 = .error fault →
      (after.Undisturbed before ↔
        settings'.validate = .error fault ∨ settings' = before.settings) ∧
      (after.Undisturbed before → after = before) ∧
      (¬ after.Undisturbed before →
        after.inputs = before.withSettings settings' ∧
        ∀ {α : Type} (query : Query W α), query.NeedsWorkspace before.process →
          ∃ cause, after.answer query = .error (.meaningless cause))) ∧
    ∀ workspace, before.workspace? = some workspace →
      ∃ stages, before.horizon = .finite stages ∧
        ((∀ fault, (before.setSettings settings').1 = .error fault → after.Undisturbed before) ↔
          settings'.validate = .ok () → ∀ c, ¬ Stalls before.process stages settings' c) := by
  intro before after
  have created : (Inputs.mk process horizon settings).create = .ok start := made
  have fresh : start.Current := .of_create created
  have current : before.Current := (serveAll_keeps fresh requests).1
  constructor
  · intro fault rejected
    have turned := turnedDown rejected
    obtain ⟨iff, same⟩ := turned.undisturbed_iff current
    exact ⟨iff, same, turned.lost⟩
  · intro workspace built
    obtain ⟨stages, finite⟩ := current.exists_stages built
    exact ⟨stages, finite, current.undisturbed_iff_not_stalls built finite settings'⟩

/-- Cached beliefs without the histories they belong to fail the check, and nothing is disturbed. -/
theorem rejected_settings_iff_beliefs :
    ∃ start : Planner Rat, create .steady (.finite 2) .nothing = .ok start ∧
      let before := start.serveAll [.hold 1]
      (before.setSettings (Settings.nothing.keeping false true)).1 =
          .error (.unsound .beliefsWithoutHistories) ∧
        (before.setSettings (Settings.nothing.keeping false true)).2.Undisturbed before := by
  obtain ⟨start, made⟩ : ∃ start : Planner Rat, create .steady (.finite 2) .nothing = .ok start := by
    apply exists_of_isOk
    decide +kernel
  have rejected : ((start.serveAll [.hold 1]).setSettings (Settings.nothing.keeping false true)).1 =
      .error (.unsound .beliefsWithoutHistories) := rfl
  obtain ⟨turned, _⟩ :=
    rejected_settings_iff made [.hold 1] (Settings.nothing.keeping false true)
  exact ⟨start, made, rejected, (turned _ rejected).1.mpr (.inl rfl)⟩

/-- An agent that acts but observes nothing, with all histories in closed form. Enumerating them
instead is refused, but not undone: the settings have changed, and the histories are gone. -/
theorem refused_enumeration_loses_histories :
    ∃ (model : Model Rat) (start : Planner Rat), Model.create 1 [⟨1, 0⟩] .dense = .ok model ∧
      create model.process (.finite 2) .nothing = .ok start ∧
        start.settings = .nothing ∧
        start.answer (.history .observation (.joint .count)) = .ok 1 ∧
          (start.setSettings .standard).1 = .error (.inconsistent .observation) ∧
            (start.setSettings .standard).2.settings = .standard ∧
            (start.setSettings .standard).2.answer (.history .observation (.joint .count)) =
              .error (.meaningless (.noWorkspace (.finite 2))) := by
  obtain ⟨model, created⟩ : ∃ model : Model Rat, Model.create 1 [⟨1, 0⟩] .dense = .ok model :=
    ⟨_, rfl⟩
  obtain ⟨start, made⟩ : ∃ start, create model.process (.finite 2) .nothing = .ok start := by
    cases created
    exact ⟨_, rfl⟩
  refine ⟨model, start, created, made, ?_⟩
  cases created
  cases made
  exact ⟨rfl, rfl, rfl, rfl, rfl⟩

end TeamPlanning.Planner
