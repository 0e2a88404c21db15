import TeamPlanning.Proofs.Planner.PathSum
import TeamPlanning.Proofs.Pruning

/-! # Realization probabilities of sparse planners

A planner with sparse beliefs does not make a history more probable than one with dense beliefs, up
to the initial mass that the sparse ones keep. -/

set_option autoImplicit false

namespace TeamPlanning

open scoped BigOperators

/-- The initial mass that a sparse belief starts from: that of the states above the tolerance. -/
def Model.initialKept (model : Model Rat) : Rat :=
  (model.initial.filter (Weight.lt Weight.tolerance ·)).sum

theorem Model.Sound.initialKept_eq {model : Model Rat} (sound : model.Sound) :
    model.initialKept = Belief.keptMass model.states model.process.initial := by
  rw [initialKept, ← sound.map_initial, List.filter_map]
  rfl

def Settings.sparsely (settings : Settings) : Settings := { settings with sparseBeliefs := true }

/-- The model with nearly all of the initial mass on the first of two states. -/
def Model.lopsided (model : Model Rat) : Model Rat :=
  { model with initial := [9999999 / 10000000, 1 / 10000000] }

namespace Planner

variable {model : Model Rat} {stages : Nat} {settings settings' : Settings}
  {planner planner' : Planner Rat}

/-- Normalized without what they drop, sparse beliefs may make single observations more probable,
but no history by more than the inverse of the initial mass that they keep. -/
theorem sparse_probability_le (built : model.Built) (nonneg : ∀ p ∈ model.initial, 0 ≤ p)
    (unit : model.initial.sum = 1) (dense : settings.sparseBeliefs = false)
    (sparse : settings'.sparseBeliefs = true)
    (alike : settings'.eventObservability = settings.eventObservability)
    (serves : Serves model.process stages settings planner)
    (serves' : Serves model.process stages settings' planner')
    {space : TeamSpace .actionObservation} (held : planner.space .actionObservation = .ok space)
    {index : Nat} (inside : index < space.team.total) :
    ∃ p q, planner.probability index 0 none none = .ok p ∧
      planner'.probability index 0 none none = .ok q ∧ model.initialKept * q ≤ p := by
  obtain ⟨same, rfl, workspace, ready⟩ := serves.ready
  obtain ⟨same', rfl, workspace', ready'⟩ := serves'.ready
  have known : space = workspace.actionObservation :=
    Except.ok.inj (held.symm.trans (ready.space .actionObservation))
  subst known
  obtain ⟨total, words⟩ := ready.same_histories ready' (same.trans same'.symm)
  have realized := ready.realize_answers Rat.mul_one index
  have realized' := ready'.realize_answers Rat.mul_one index
  rw [if_pos inside] at realized
  rw [if_pos (total ▸ inside), ← words] at realized'
  refine ⟨_, _, bind_of_eq_ok realized _, bind_of_eq_ok realized' _, ?_⟩
  have within := Realization.along_start_within built.sound.regular (Model.initial_nonneg nonneg)
    (built.sound.initial_sum.trans unit) planner.settings.eventObservability
    (workspace.actionObservation.team.word index)
  obtain ⟨_, evidence⟩ := realizationOf_eq_forward built nonneg unit same dense
    (workspace.actionObservation.team.word index)
  rw [evidence, built.sound.initialKept_eq, realizationOf, same', sparse, alike]
  exact within.total

/-- The second state is dropped at the start. -/
theorem sparse_probability_le_lopsided :
    ∃ (model : Model Rat) (planner planner' : Planner Rat) (space : TeamSpace .actionObservation),
      model.Built ∧ (∀ p ∈ model.initial, 0 ≤ p) ∧ model.initial.sum = 1 ∧
        Serves model.process 2 Settings.nothing planner ∧
        Serves model.process 2 Settings.nothing.sparsely planner' ∧
        planner.space .actionObservation = .ok space ∧ 1 < space.team.total ∧
        model.initialKept = 9999999 / 10000000 ∧
        ∃ p q, planner.probability 1 0 none none = .ok p ∧
          planner'.probability 1 0 none none = .ok q ∧ model.initialKept * q ≤ p := by
  obtain ⟨model, built, answers⟩ := Model.exists_hushed
  have states : model.states = 2 := answers (·.states) 2 (by decide +kernel)
  have counted := answers (fun model => ((create model.lopsided.process (.finite 2) .nothing) >>=
    fun planner => return (← planner.space .actionObservation).team.total).toOption) (some 3)
      (by decide +kernel)
  have created' := answers (fun model => (create model.lopsided.process (.finite 2)
    Settings.nothing.sparsely).isOk) true (by decide +kernel)
  have kept := answers (·.lopsided.initialKept) (9999999 / 10000000) (by decide +kernel)
  obtain ⟨planner, made, counted⟩ := bind_eq_ok_iff.mp (eq_ok_of_toOption counted)
  obtain ⟨space, held, counted⟩ := bind_eq_ok_iff.mp counted
  obtain ⟨planner', made'⟩ := exists_of_isOk created'
  have written : model.writeInitial [9999999 / 10000000, 1 / 10000000] = .ok model.lopsided :=
    if_pos states.symm
  have built' : model.lopsided.Built := .initial built written
  have nonneg : ∀ p ∈ model.lopsided.initial, 0 ≤ p := by
    change ∀ p ∈ [(9999999 / 10000000 : Rat), 1 / 10000000], 0 ≤ p
    decide +kernel
  have unit : model.lopsided.initial.sum = 1 := by
    change [(9999999 / 10000000 : Rat), 1 / 10000000].sum = 1
    decide +kernel
  have inside : 1 < space.team.total := by
    have total : space.team.total = 3 := Except.ok.inj counted
    omega
  have serves : Serves model.lopsided.process 2 Settings.nothing planner := .created made
  have serves' : Serves model.lopsided.process 2 Settings.nothing.sparsely planner' :=
    .created made'
  have dense : Settings.nothing.sparseBeliefs = false := rfl
  have sparse : Settings.nothing.sparsely.sparseBeliefs = true := rfl
  exact ⟨model.lopsided, planner, planner', space, built', nonneg, unit, serves, serves', held,
    inside, kept,
    sparse_probability_le built' nonneg unit dense sparse rfl serves serves' held inside⟩

end Planner

end TeamPlanning
