import TeamPlanning.Proofs.Model
import TeamPlanning.Proofs.Paths
import TeamPlanning.Proofs.Planner.Cache

/-! # Realization probabilities as sums over paths

A planner that works with dense beliefs answers with the sum over all paths of states, however it
normalizes on the way. -/

set_option autoImplicit false

namespace TeamPlanning.Planner

open scoped BigOperators

variable {model : Model Rat} {stages : Nat} {settings : Settings} {planner : Planner Rat}

/-- The filter of a dense planner carries the forward masses of the model. -/
theorem realizationOf_eq_forward (built : model.Built) (nonneg : ∀ p ∈ model.initial, 0 ≤ p)
    (unit : model.initial.sum = 1) (same : planner.process = model.process)
    (dense : planner.settings.sparseBeliefs = false) (word : List (Symbol .actionObservation)) :
    (planner.realizationOf word).belief = Belief.tabulate model.states (fun state =>
        model.process.forward planner.settings.eventObservability word state /
          model.process.evidence planner.settings.eventObservability word) ∧
      (planner.realizationOf word).unconditional =
        model.process.evidence planner.settings.eventObservability word := by
  rw [realizationOf, same, dense]
  exact Realization.along_start built.sound.regular (Model.initial_nonneg nonneg)
    (built.sound.initial_sum.trans unit) word

/-- The probability of a history is the weight of all paths of states along it, and its belief the
share of the paths that end in a state. -/
theorem probability_eq_path_sum (built : model.Built) (nonneg : ∀ p ∈ model.initial, 0 ≤ p)
    (unit : model.initial.sum = 1) (dense : settings.sparseBeliefs = false)
    (serves : Serves model.process stages settings planner)
    {space : TeamSpace .actionObservation} (held : planner.space .actionObservation = .ok space)
    {index : Nat} (inside : index < space.team.total) :
    ∃ word belief, planner.jointSymbols .actionObservation index = .ok word ∧
      planner.probability index 0 none none =
        .ok (∑ path, model.process.pathWeight settings.eventObservability word path) ∧
      planner.jointBelief index = .ok belief ∧
      (0 < ∑ path, model.process.pathWeight settings.eventObservability word path →
        ∀ state : Fin model.states, belief.get state =
          (∑ path with path (Fin.last word.length) = state,
              model.process.pathWeight settings.eventObservability word path) /
            ∑ path, model.process.pathWeight settings.eventObservability word path) ∧
      (∑ path, model.process.pathWeight settings.eventObservability word path = 0 →
        belief = .zero model.states false) := by
  obtain ⟨same, rfl, workspace, ready⟩ := serves.ready
  have known : space = workspace.actionObservation :=
    Except.ok.inj (held.symm.trans (ready.space .actionObservation))
  subst known
  have realized := ready.realize_answers Rat.mul_one index
  have believed := ready.jointBelief_answers Rat.mul_one index
  rw [if_pos inside] at realized believed
  obtain ⟨belief, evidence⟩ := realizationOf_eq_forward built nonneg unit same dense
    (workspace.actionObservation.team.word index)
  rw [evidence] at realized
  rw [belief] at believed
  refine ⟨_, _, ready.jointSymbols_eq_ok inside, ?_, believed, ?_, ?_⟩
  · rw [← DecisionProcess.evidence_eq_sum_paths]
    exact bind_of_eq_ok realized _
  · intro _ state
    rw [Belief.get_tabulate state.isLt, ← DecisionProcess.evidence_eq_sum_paths]
    congr 1
    exact DecisionProcess.forward_eq_sum_paths model.process _ _ state
  · intro none
    rw [← DecisionProcess.evidence_eq_sum_paths] at none
    rw [none]
    simp [Belief.tabulate, Belief.zero]

/-- A model of two states, drawn for one agent with two actions and two observations. -/
def drawn : Except Fault (Model Rat) :=
  Model.random 2 [⟨2, 2⟩] .dense fun place => place * Nat.pow 2 60

/-- What a planner for three stages of the drawn model answers to a query. -/
def askDrawn {α : Type} (query : Model Rat → Planner Rat → Except Fault α) : Option α :=
  (drawn >>= fun model =>
    create model.process (.finite 3) Settings.nothing >>= query model).toOption

theorem exists_drawn : ∃ (model : Model Rat) (planner : Planner Rat),
    model.Built ∧ create model.process (.finite 3) Settings.nothing = .ok planner ∧
      ∀ {α : Type} (query : Model Rat → Planner Rat → Except Fault α) (answer : α),
        askDrawn query = some answer → query model planner = .ok answer := by
  have asked : (askDrawn fun model planner => .ok (model, planner)).isSome = true := by
    decide +kernel
  obtain ⟨pair, answered⟩ := Option.isSome_iff_exists.mp asked
  obtain ⟨model, made, answered⟩ := bind_eq_ok_iff.mp (eq_ok_of_toOption answered)
  obtain ⟨planner, created, _⟩ := bind_eq_ok_iff.mp answered
  refine ⟨model, planner, .drawn made, created, fun query answer asked => eq_ok_of_toOption ?_⟩
  rwa [askDrawn, bind_of_eq_ok made, bind_of_eq_ok created] at asked

theorem probability_eq_path_sum_drawn :
    ∃ (model : Model Rat) (planner : Planner Rat) (space : TeamSpace .actionObservation),
      model.Built ∧ (∀ p ∈ model.initial, 0 ≤ p) ∧ model.initial.sum = 1 ∧
        Settings.nothing.sparseBeliefs = false ∧
        Serves model.process 3 Settings.nothing planner ∧
        planner.space .actionObservation = .ok space ∧ 7 < space.team.total ∧
        ∃ word, planner.jointSymbols .actionObservation 7 = .ok word ∧
          planner.probability 7 0 none none =
            .ok (∑ path, model.process.pathWeight false word path) := by
  obtain ⟨model, planner, built, made, answers⟩ := exists_drawn
  have nonneg : ∀ p ∈ model.initial, 0 ≤ p := of_decide_eq_true (Except.ok.inj
    (answers (fun model _ => .ok (decide (∀ p ∈ model.initial, 0 ≤ p))) true (by decide +kernel)))
  have unit : model.initial.sum = 1 :=
    Except.ok.inj (answers (fun model _ => .ok model.initial.sum) 1 (by decide +kernel))
  have counted := answers
    (fun _ planner => do return (← planner.space .actionObservation).team.total) 21
    (by decide +kernel)
  obtain ⟨space, held, counted⟩ := bind_eq_ok_iff.mp counted
  have inside : 7 < space.team.total := by
    have total : space.team.total = 21 := Except.ok.inj counted
    omega
  obtain ⟨word, _, read, probability, _⟩ :=
    probability_eq_path_sum built nonneg unit rfl (.created made) held inside
  exact ⟨model, planner, space, built, nonneg, unit, rfl, .created made, held, inside, word, read,
    probability⟩

end TeamPlanning.Planner
