import TeamPlanning.Proofs.Planner.Walk
import TeamPlanning.Weight.Rational

/-! # Cached and recomputed realizations

A planner answers with the realization of a history's symbols, whether it looks the realization up
or works it out again. Of the arithmetic of weights only the neutrality of one is used. -/

set_option autoImplicit false

namespace TeamPlanning

/-- The settings with the joint action-observation histories and the beliefs kept as said. -/
def Settings.keeping (settings : Settings) (eager cached : Bool) : Settings :=
  { settings with
    joint := { settings.joint with actionObservation := eager }
    cachedBeliefs := cached }

variable {W : Type}

theorem Realizations.getElem?_conditional_ofList (keep : Bool) (total index : Nat)
    (realization : Nat → Realization W) :
    (Realizations.ofList keep ((List.range total).map realization)).conditional[index]? =
      if index < total then some (realization index).conditional else none := by
  by_cases inside : index < total <;> simp [ofList, inside]

theorem Realizations.getElem?_unconditional_ofList (keep : Bool) (total index : Nat)
    (realization : Nat → Realization W) :
    (Realizations.ofList keep ((List.range total).map realization)).unconditional[index]? =
      if index < total then some (realization index).unconditional else none := by
  by_cases inside : index < total <;> simp [ofList, inside]

namespace Planner

variable [Weight W] {process : DecisionProcess W} {stages : Nat} {settings : Settings}
  {planner : Planner W} {workspace : Workspace W}

namespace Ready

variable (ready : planner.Ready stages workspace)
include ready

/-- The place of a realization is the number of its history. -/
theorem realizations_eq : planner.realizations? =
    if planner.settings.joint.actionObservation then
      some (Realizations.ofList planner.settings.cachedBeliefs
        ((List.range workspace.actionObservation.team.total).map fun index =>
          planner.realizationOf (workspace.actionObservation.team.word index)))
    else none := by
  rw [ready.cached, ready.realizations, Workspace.realize, ready.reads.stages,
    Realization.stages_eq ready.planned, ready.reads.total]
  rfl

theorem eager_of_cached (caching : planner.settings.cachedBeliefs = true) :
    planner.settings.joint.actionObservation = true := by
  have valid := ready.valid
  rw [Settings.validate] at valid
  split at valid
  · cases valid
  · rename_i consistent
    simpa [caching] using consistent

theorem cachedRealization_of_cached (caching : planner.settings.cachedBeliefs = true)
    (index : Nat) :
    Answers (planner.cachedRealization index)
      (if index < workspace.actionObservation.team.total then
        some (some ((planner.realizationOf (workspace.actionObservation.team.word index)).belief,
          (planner.realizationOf (workspace.actionObservation.team.word index)).unconditional))
      else none) := by
  rw [cachedRealization, ready.realizations_eq, ready.eager_of_cached caching, caching]
  simp only [↓reduceIte]
  rw [Realizations.getElem?_unconditional_ofList]
  by_cases inside : index < workspace.actionObservation.team.total
  · simp [Realizations.ofList, inside, Answers]
  · simp [Realizations.ofList, inside, Answers]

theorem cachedRealization_of_not_cached (plain : planner.settings.cachedBeliefs = false)
    (index : Nat) : planner.cachedRealization index = .ok none := by
  rw [cachedRealization, ready.realizations_eq, plain]
  cases planner.settings.joint.actionObservation with
  | false => rfl
  | true => rfl

theorem realizeFrom_answers (neutral : ∀ x : W, x * Weight.one = x) (index : Nat) :
    Answers (planner.realizeFrom index 0 none none)
      (if index < workspace.actionObservation.team.total then
        some ((planner.realizationOf (workspace.actionObservation.team.word index)).belief,
          (planner.realizationOf (workspace.actionObservation.team.word index)).unconditional)
      else none) := by
  by_cases inside : index < workspace.actionObservation.team.total
  · rw [if_pos inside]
    refine (ready.realizeFrom_zero none inside).trans ?_
    exact ready.walk_given neutral [] (planner.realizationOf []) inside
      (List.nil_append _).symm (HistorySpace.word_zero _)
  · rw [if_neg inside]
    have staged := ready.reads.stageOf index
    rw [if_neg inside] at staged
    obtain ⟨cause, failed⟩ := staged
    rw [realizeFrom, bind_of_eq_ok (ready.space .actionObservation)]
    exact ⟨cause, bind_of_eq_error failed _⟩

/-- Looked up or worked out, the answer is the realization of the symbols. -/
theorem realize_answers (neutral : ∀ x : W, x * Weight.one = x) (index : Nat) :
    Answers (planner.realize index 0 none none)
      (if index < workspace.actionObservation.team.total then
        some ((planner.realizationOf (workspace.actionObservation.team.word index)).belief,
          (planner.realizationOf (workspace.actionObservation.team.word index)).unconditional)
      else none) := by
  simp only [realize, Option.isNone_none, and_self, ↓reduceIte]
  cases caching : planner.settings.cachedBeliefs with
  | false =>
      rw [bind_of_eq_ok (ready.cachedRealization_of_not_cached caching index)]
      exact ready.realizeFrom_answers neutral index
  | true => exact (ready.cachedRealization_of_cached caching index).bind_if fun _ => rfl

theorem jointBelief_answers (neutral : ∀ x : W, x * Weight.one = x) (index : Nat) :
    Answers (planner.jointBelief index)
      (if index < workspace.actionObservation.team.total then
        some (planner.realizationOf (workspace.actionObservation.team.word index)).belief
      else none) := by
  rw [jointBelief]
  cases caching : planner.settings.cachedBeliefs with
  | false =>
      rw [bind_of_eq_ok (ready.cachedRealization_of_not_cached caching index)]
      exact (ready.realize_answers neutral index).bind_if fun _ => rfl
  | true => exact (ready.cachedRealization_of_cached caching index).bind_if fun _ => rfl

theorem realizeAfter_of_not_cached (plain : planner.settings.cachedBeliefs = false)
    (policy? : Option (JointPolicy W)) (index predecessor : Nat)
    (former later : List (Symbol .actionObservation)) :
    planner.realizeAfter index predecessor former.length (former ++ later) policy? =
      planner.walk policy? later (Symbol.observations former) predecessor
        (planner.realizationOf former).belief Weight.one := by
  have replayed : planner.replay ((planner.blankBelief none).reset planner.process) former =
      (planner.realizationOf former).belief :=
    planner.replay_eq_along
      (Realization.start planner.process planner.settings.sparseBeliefs) former
  rw [realizeAfter, bind_of_eq_ok (ready.cachedRealization_of_not_cached plain index)]
  simp only [walkFrom, List.take_left, List.drop_left, replayed]

theorem probability_last (neutral : ∀ x : W, x * Weight.one = x)
    (plain : planner.settings.cachedBeliefs = false) {index before : Nat}
    {symbol : Symbol .actionObservation}
    (inside : index < workspace.actionObservation.team.total)
    (present : before < workspace.actionObservation.team.total)
    (split : workspace.actionObservation.team.word index =
      workspace.actionObservation.team.word before ++ [symbol]) :
    planner.probability index before none none = .ok (Weight.one *
      (planner.realizationOf (workspace.actionObservation.team.word index)).conditional) := by
  rw [probability]
  by_cases begun : before = 0
  · subst begun
    have answers := ready.realize_answers neutral index
    rw [if_pos inside] at answers
    rw [HistorySpace.word_zero] at split
    rw [bind_of_eq_ok answers, split]
    cases symbol
    rfl
  · have walked := ready.walk_given neutral
      (Symbol.observations (workspace.actionObservation.team.word before))
      { planner.realizationOf (workspace.actionObservation.team.word before) with
        unconditional := Weight.one } inside split rfl
    simp only [realize, begun, false_and, ↓reduceIte]
    rw [ready.realizeFrom_after none inside split (by simp) begun present, split,
      ready.realizeAfter_of_not_cached plain, walked, realizationOf_append]
    cases symbol
    rfl

theorem lastProbability_answers (neutral : ∀ x : W, x * Weight.one = x)
    (neutral' : ∀ x : W, Weight.one * x = x) (index : Nat) :
    Answers (planner.lastProbability index)
      (if index < workspace.actionObservation.team.total then
        some (planner.realizationOf (workspace.actionObservation.team.word index)).conditional
      else none) := by
  rw [lastProbability, ready.realizations_eq]
  cases eager : planner.settings.joint.actionObservation with
  | true =>
      simp only [↓reduceIte, Realizations.getElem?_conditional_ofList]
      by_cases inside : index < workspace.actionObservation.team.total
      · simp only [inside, ↓reduceIte]
        rfl
      · simp only [inside, ↓reduceIte]
        exact ⟨_, rfl⟩
  | false =>
      have plain : planner.settings.cachedBeliefs = false := by
        by_contra caching
        rw [ready.eager_of_cached (by simpa using caching)] at eager
        cases eager
      refine (ready.jointSymbols_answers index).bind_if fun inside => ?_
      cases last : (workspace.actionObservation.team.word index).reverse with
      | nil =>
          rw [List.reverse_eq_nil_iff.mp last]
          rfl
      | cons symbol reversed =>
          have split : workspace.actionObservation.team.word index =
              reversed.reverse ++ [symbol] := by
            rw [← List.reverse_cons, ← last, List.reverse_reverse]
          obtain ⟨before, present, spelled⟩ := ready.reads.earlier inside split
          have found : planner.jointIndexOf reversed.reverse = .ok before := by
            rw [jointIndexOf, bind_of_eq_ok (ready.space .actionObservation)]
            exact (ready.reads.indexOf _ _).mpr ⟨present, spelled⟩
          have stepped := ready.probability_last neutral plain inside present
            (by rw [split, spelled])
          have nonempty :
              (workspace.actionObservation.team.word index).isEmpty = false := by
            rw [split]
            simp
          simp only [nonempty, Bool.false_eq_true, ↓reduceIte]
          rw [split, List.dropLast_concat]
          refine (bind_of_eq_ok found _).trans ?_
          rw [stepped, neutral', split]

end Ready

theorem Ready.same_histories {planner' : Planner W} {workspace' : Workspace W}
    (ready : planner.Ready stages workspace) (ready' : planner'.Ready stages workspace')
    (same : planner.process = planner'.process) :
    workspace.actionObservation.team.total = workspace'.actionObservation.team.total ∧
      workspace.actionObservation.team.word = workspace'.actionObservation.team.word := by
  have joint := ready.intact.1
  rw [same, ready'.intact.1] at joint
  exact ready.reads.same_numbers ready'.reads (Except.ok.inj joint).symm

theorem realizationOf_keeping {planner' : Planner W} {eager cached eager' cached' : Bool}
    (same : planner.process = planner'.process)
    (kept : planner.settings = settings.keeping eager cached)
    (kept' : planner'.settings = settings.keeping eager' cached') :
    planner.realizationOf = planner'.realizationOf := by
  funext word
  rw [realizationOf, realizationOf, same, kept, kept']
  rfl

/-- Without cached beliefs a planner can be created wherever one with them can. -/
theorem exists_create_of_caching {caching : Planner W}
    (made : create process (.finite stages) (settings.keeping true true) = .ok caching)
    (eager : Bool) :
    ∃ plain, create process (.finite stages) (settings.keeping eager false) = .ok plain := by
  obtain ⟨workspace?, demanded, _⟩ := bind_eq_ok_iff.mp made
  obtain ⟨_, planned, workspace, rfl, built⟩ := demanded_finite.mp demanded
  obtain ⟨each, _⟩ := build_eq_ok_iff.mp built
  have joint : ∃ space : TeamSpace .actionObservation, TeamSpace.create process.alphabets stages
      settings.individual.actionObservation eager = .ok space := by
    cases eager with
    | true => exact ⟨_, each .actionObservation⟩
    | false => exact TeamSpace.exists_create_closedForm (each .actionObservation)
  obtain ⟨space, described⟩ := joint
  obtain ⟨workspace', rebuilt⟩ :
      ∃ workspace', Workspace.build process stages (settings.keeping eager false) =
        .ok workspace' := by
    refine ⟨⟨workspace.observation, workspace.action, space,
      if eager then some (Workspace.realize process (settings.keeping eager false) space)
      else none⟩, build_eq_ok_iff.mpr ⟨fun c => ?_, rfl⟩⟩
    cases c with
    | observation => exact each .observation
    | action => exact each .action
    | actionObservation => exact described
  have valid : (settings.keeping eager false).validate = .ok () := rfl
  have demanded' := demanded_finite.mpr ⟨valid, planned, workspace', rfl, rebuilt⟩
  exact ⟨_, bind_of_eq_ok demanded' _⟩

/-- Whether beliefs are looked up or worked out along the history cannot be told from the answers,
and neither can the way in which joint action-observation histories are kept. -/
theorem cached_agrees_recomputed (neutral : ∀ x : W, x * Weight.one = x)
    (neutral' : ∀ x : W, Weight.one * x = x) {caching : Planner W}
    (serves : Serves process stages (settings.keeping true true) caching) (eager : Bool) :
    (∃ plain, create process (.finite stages) (settings.keeping eager false) = .ok plain) ∧
      ∀ plain : Planner W, Serves process stages (settings.keeping eager false) plain →
        ∀ index,
          SameOutcome (caching.jointBelief index) (plain.jointBelief index) ∧
            SameOutcome (caching.realize index 0 none none) (plain.realize index 0 none none) ∧
            SameOutcome (caching.lastProbability index) (plain.lastProbability index) := by
  obtain ⟨made, created⟩ := serves.exists_create
  refine ⟨exists_create_of_caching created eager, ?_⟩
  intro plain serves' index
  obtain ⟨same, kept, workspace, ready⟩ := serves.ready
  obtain ⟨same', kept', workspace', ready'⟩ := serves'.ready
  obtain ⟨total, word⟩ := ready.same_histories ready' (same.trans same'.symm)
  have realization := realizationOf_keeping (same.trans same'.symm) kept kept'
  have belief := ready'.jointBelief_answers neutral index
  have realized := ready'.realize_answers neutral index
  have last := ready'.lastProbability_answers neutral neutral' index
  rw [← total, ← word, ← realization] at belief realized last
  exact ⟨(ready.jointBelief_answers neutral index).sameOutcome belief,
    (ready.realize_answers neutral index).sameOutcome realized,
    (ready.lastProbability_answers neutral neutral' index).sameOutcome last⟩

end Planner

/-- One agent chooses between two actions in the only state, and observes the same after each. -/
def DecisionProcess.steady : DecisionProcess Rat :=
  Dynamics.process
    { agents := 1
      states := 1
      actions := fun _ => 2
      observations := fun _ => 1
      transition := fun _ _ _ => 1
      observation := fun _ _ _ => 1
      initial := fun _ => 1 }

namespace Planner

theorem cached_agrees_recomputed_steady :
    (∀ x : Rat, x * Weight.one = x) ∧ (∀ x : Rat, Weight.one * x = x) ∧
      ∃ caching plain : Planner Rat,
        Serves .steady 2 (Settings.nothing.keeping true true) caching ∧
          Serves .steady 2 (Settings.nothing.keeping false false) plain ∧
          ∀ index,
            SameOutcome (caching.realize index 0 none none) (plain.realize index 0 none none) := by
  have neutral : ∀ x : Rat, x * Weight.one = x := Rat.mul_one
  have neutral' : ∀ x : Rat, Weight.one * x = x := Rat.one_mul
  have created : (create .steady (.finite 2) (Settings.nothing.keeping true true)).isOk = true := by
    decide +kernel
  obtain ⟨caching, made⟩ := exists_of_isOk created
  obtain ⟨⟨plain, made'⟩, agrees⟩ :=
    cached_agrees_recomputed neutral neutral' (.created made) false
  exact ⟨neutral, neutral', caching, plain, .created made, .created made',
    fun index => (agrees plain (.created made') index).2.1⟩

end Planner

end TeamPlanning
