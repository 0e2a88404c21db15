import TeamPlanning.Proofs.Likelihood
import TeamPlanning.Proofs.Planner.Cache

/-! # Probabilities after a predecessor

Where beliefs are cached, the probability of a history after a predecessor is the ratio of two
probabilities that were worked out without a policy. So it misses the weights of the policy. -/

set_option autoImplicit false

namespace TeamPlanning

namespace Planner

variable {process : DecisionProcess Rat} {stages : Nat} {settings : Settings}
  {planner : Planner Rat} {workspace : Workspace Rat}

theorem ratio_mul (given likelihood : Rat) :
    ratio (given * likelihood) given = if 0 < given then likelihood else 0 := by
  rw [ratio]
  by_cases possible : 0 < given
  · rw [if_pos ((Weight.positive_iff given).mpr possible), if_pos possible]
    exact mul_div_cancel_left₀ likelihood (ne_of_gt possible)
  · rw [if_neg (by simpa using possible), if_neg possible]
    rfl

/-- A ratio agrees with a product exactly if the product says nothing of the policy. -/
theorem sameOutcome_ratio_iff (belief : Belief Rat) (given likelihood : Rat)
    (weighed : Except Fault Rat) :
    SameOutcome (.ok (belief, if 0 < given then likelihood else 0))
        (weighed.map fun w => (belief, likelihood * w)) ↔
      ∃ w, weighed = .ok w ∧ (likelihood = 0 ∨ w = if 0 < given then 1 else 0) := by
  cases weighed with
  | error fault =>
      constructor
      · intro agree
        cases agree
      · intro given
        obtain ⟨w, accepted, _⟩ := given
        cases accepted
  | ok w =>
      have equal : (if 0 < given then likelihood else 0) = likelihood * w ↔
          likelihood = 0 ∨ w = if 0 < given then 1 else 0 := by
        by_cases possible : 0 < given
        · rw [if_pos possible, if_pos possible, eq_comm, mul_right_eq_self₀, or_comm]
        · rw [if_neg possible, if_neg possible, zero_eq_mul]
      simp [SameOutcome, Except.map, Except.mapError, equal]

namespace Ready

variable (ready : planner.Ready stages workspace)
include ready

theorem realizeAfter_of_cached (caching : planner.settings.cachedBeliefs = true)
    (policy? : Option (JointPolicy Rat)) {index predecessor : Nat}
    (inside : index < workspace.actionObservation.team.total)
    (present : predecessor < workspace.actionObservation.team.total) (length : Nat)
    (symbols : List (Symbol .actionObservation)) :
    planner.realizeAfter index predecessor length symbols policy? =
      .ok ((planner.realizationOf (workspace.actionObservation.team.word index)).belief,
        ratio (planner.realizationOf (workspace.actionObservation.team.word index)).unconditional
          (planner.realizationOf
            (workspace.actionObservation.team.word predecessor)).unconditional) := by
  have found := ready.cachedRealization_of_cached caching index
  rw [if_pos inside] at found
  rw [realizeAfter, bind_of_eq_ok found, ready.realizations_eq, ready.eager_of_cached caching]
  simp only [↓reduceIte, Option.bind_some, Realizations.getElem?_unconditional_ofList, present,
    Option.getD_some]
  rfl

/-- With cached beliefs the policy is not asked. -/
theorem realize_after_of_cached (caching : planner.settings.cachedBeliefs = true)
    (policy? : Option (JointPolicy Rat)) {index predecessor : Nat}
    {later : List (Symbol .actionObservation)}
    (inside : index < workspace.actionObservation.team.total)
    (split : workspace.actionObservation.team.word index =
      workspace.actionObservation.team.word predecessor ++ later)
    (proper : later ≠ []) (begun : predecessor ≠ 0)
    (present : predecessor < workspace.actionObservation.team.total) :
    planner.realize index predecessor none policy? =
      .ok ((planner.realizationOf (workspace.actionObservation.team.word index)).belief,
        if 0 < (planner.realizationOf
            (workspace.actionObservation.team.word predecessor)).unconditional then
          (planner.realizationOf
            (workspace.actionObservation.team.word predecessor)).belief.likelihood
              planner.process planner.settings.eventObservability later
        else 0) := by
  have product : (planner.realizationOf (workspace.actionObservation.team.word index)).unconditional
      = (planner.realizationOf
          (workspace.actionObservation.team.word predecessor)).unconditional *
        (planner.realizationOf
          (workspace.actionObservation.team.word predecessor)).belief.likelihood
            planner.process planner.settings.eventObservability later := by
    rw [split, realizationOf_append, (Belief.along_eq _ later).2]
  simp only [realize, begun, false_and, ↓reduceIte]
  rw [ready.realizeFrom_after policy? inside split proper begun present,
    ready.realizeAfter_of_cached caching policy? inside present, product, ratio_mul]

/-- Without cached beliefs the policy is asked at every step after the predecessor. -/
theorem realize_after_of_not_cached (plain : planner.settings.cachedBeliefs = false)
    (policy? : Option (JointPolicy Rat)) {index predecessor : Nat}
    {later : List (Symbol .actionObservation)}
    (inside : index < workspace.actionObservation.team.total)
    (split : workspace.actionObservation.team.word index =
      workspace.actionObservation.team.word predecessor ++ later)
    (proper : later ≠ []) (begun : predecessor ≠ 0)
    (present : predecessor < workspace.actionObservation.team.total) :
    planner.realize index predecessor none policy? =
      (planner.weigh policy? later
        (Symbol.observations (workspace.actionObservation.team.word predecessor))
        predecessor).map fun w =>
          ((planner.realizationOf (workspace.actionObservation.team.word index)).belief,
            (planner.realizationOf (workspace.actionObservation.team.word predecessor)).belief.likelihood
              planner.process planner.settings.eventObservability later * w) := by
  simp only [realize, begun, false_and, ↓reduceIte]
  rw [ready.realizeFrom_after policy? inside split proper begun present, split,
    ready.realizeAfter_of_not_cached plain, ready.walk_eq_weigh policy? _ _ _ inside split rfl,
    realizationOf_append, (Belief.along_eq _ later).1]
  simp only [Weight.one_eq, one_mul]

end Ready

/-- After a predecessor that can come about, the cached probability agrees with the recomputed one
exactly where the policy takes all further joint actions for certain, or the further observations
cannot be made; after one that cannot, nothing may be left of the recomputed one. The cached one
does not depend on the policy. -/
theorem cached_conditional_iff {caching plain : Planner Rat} {eager : Bool}
    (serves : Serves process stages (settings.keeping true true) caching)
    (serves' : Serves process stages (settings.keeping eager false) plain) {index predecessor : Nat}
    {former later : List (Symbol .actionObservation)}
    (reached : caching.jointSymbols .actionObservation predecessor = .ok former)
    (split : caching.jointSymbols .actionObservation index = .ok (former ++ later))
    (begun : predecessor ≠ 0) (proper : later ≠ []) (policy? : Option (JointPolicy Rat)) :
    ∃ given likelihood,
      plain.probability predecessor 0 none none = .ok given ∧
        plain.probability index predecessor none none = .ok likelihood ∧
        (process.Nonnegative → likelihood = 0 ∨ 0 < given) ∧
        (SameOutcome (caching.realize index predecessor none policy?)
            (plain.realize index predecessor none policy?) ↔
          ∃ w, plain.weigh policy? later (Symbol.observations former) predecessor = .ok w ∧
            (likelihood = 0 ∨ w = if 0 < given then 1 else 0)) := by
  obtain ⟨rfl, kept, workspace, ready⟩ := serves.ready
  obtain ⟨same, kept', workspace', ready'⟩ := serves'.ready
  obtain ⟨total, word⟩ := ready.same_histories ready' same.symm
  obtain ⟨present, rfl⟩ := ready.jointSymbols_eq_ok_iff.mp reached
  obtain ⟨inside, split⟩ := ready.jointSymbols_eq_ok_iff.mp split
  have realization := realizationOf_keeping same.symm kept kept'
  have event : caching.settings.eventObservability = plain.settings.eventObservability := by
    rw [kept, kept']
    rfl
  have cached := ready.realize_after_of_cached (by rw [kept]; rfl) policy? inside split proper begun
    present
  rw [realization, ← same, event, word] at cached
  rw [word] at split ⊢
  rw [total] at inside present
  have recomputed := fun policy? => ready'.realize_after_of_not_cached (by rw [kept']; rfl)
    policy? inside split proper begun present
  have prior := ready'.realize_answers Rat.mul_one predecessor
  rw [if_pos present] at prior
  have alone : plain.probability index predecessor none none =
      .ok ((plain.realizationOf
        (workspace'.actionObservation.team.word predecessor)).belief.likelihood plain.process
          plain.settings.eventObservability later) := by
    rw [probability, recomputed none, ready'.weigh_none _ inside split rfl]
    exact congrArg Except.ok (Rat.mul_one _)
  refine ⟨_, _, bind_of_eq_ok prior _, alone, ?_, ?_⟩
  · intro regular
    rw [realizationOf_unconditional,
      realizationOf_belief (workspace'.actionObservation.team.word predecessor)]
    rw [← same] at regular
    rcases lt_or_eq_of_le (Belief.likelihood_nonneg regular _ _) with possible | nothing
    · exact .inr possible
    · exact .inl (Belief.likelihood_after_zero regular nothing.symm proper)
  · rw [cached, recomputed policy?]
    exact sameOutcome_ratio_iff _ _ _ _

end Planner

/-- The second joint action after every joint action-observation history. -/
def PureJointPolicy.second (elements : Nat) : PureJointPolicy where
  domain := .actionObservationHistory
  jointActions := Array.replicate elements 1

namespace Planner

/-- What a planner for three stages of the steady process answers to a query. -/
def askSteady {α : Type} (cached : Bool) (query : Planner Rat → Except Fault α) :
    Option α :=
  (create .steady (.finite 3) (Settings.nothing.keeping true cached) >>= query).toOption

theorem exists_steady (cached : Bool) : ∃ planner : Planner Rat,
    create .steady (.finite 3) (Settings.nothing.keeping true cached) = .ok planner ∧
      ∀ {α : Type} {query : Planner Rat → Except Fault α} {answer : α},
        askSteady cached query = some answer → query planner = .ok answer := by
  have created :
      (create .steady (.finite 3) (Settings.nothing.keeping true cached)).isOk = true := by
    cases cached <;> decide +kernel
  obtain ⟨planner, made⟩ := exists_of_isOk created
  refine ⟨planner, made, fun asked => eq_ok_of_toOption ?_⟩
  rwa [askSteady, bind_of_eq_ok made] at asked

theorem cached_conditional_iff_steady :
    ∃ caching plain : Planner Rat,
      Serves .steady 3 (Settings.nothing.keeping true true) caching ∧
        Serves .steady 3 (Settings.nothing.keeping true false) plain ∧
        caching.jointSymbols .actionObservation 1 = .ok [.actionObservation 0 0] ∧
        caching.jointSymbols .actionObservation 3 =
          .ok ([.actionObservation 0 0] ++ [.actionObservation 0 0]) ∧
        1 ≠ 0 ∧ [Symbol.actionObservation 0 0] ≠ [] ∧
        SameOutcome (caching.realize 3 1 none none) (plain.realize 3 1 none none) := by
  obtain ⟨caching, made, looks_up⟩ := exists_steady true
  obtain ⟨plain, made', recomputes⟩ := exists_steady false
  have reached : caching.jointSymbols .actionObservation 1 = .ok [.actionObservation 0 0] := by
    apply looks_up
    decide +kernel
  have split : caching.jointSymbols .actionObservation 3 =
      .ok ([.actionObservation 0 0] ++ [.actionObservation 0 0]) := by
    apply looks_up
    decide +kernel
  have prior : plain.probability 1 0 none none = .ok 1 := by
    apply recomputes
    decide +kernel
  have weighed : plain.weigh none [.actionObservation 0 0] [0] 1 = .ok 1 := by
    apply recomputes
    decide +kernel
  obtain ⟨given, likelihood, known, _, _, agrees⟩ := cached_conditional_iff (.created made)
    (.created made') reached split (by decide) (by simp) none
  rw [prior] at known
  cases known
  exact ⟨caching, plain, .created made, .created made', reached, split, by decide, by simp,
    agrees.mpr ⟨1, weighed, .inr rfl⟩⟩

/-- The second of two steps took the first joint action, which the policy never takes. -/
theorem cached_conditional_ignores_policy :
    ∃ caching plain : Planner Rat,
      create .steady (.finite 3) (Settings.nothing.keeping true true) = .ok caching ∧
        create .steady (.finite 3) (Settings.nothing.keeping true false) = .ok plain ∧
        caching.jointSymbols .actionObservation 1 = .ok [.actionObservation 0 0] ∧
        caching.jointSymbols .actionObservation 3 =
          .ok [.actionObservation 0 0, .actionObservation 0 0] ∧
        caching.realize 3 1 none (some (PureJointPolicy.second 7).toJointPolicy) =
          .ok (.dense [1], 1) ∧
        plain.realize 3 1 none (some (PureJointPolicy.second 7).toJointPolicy) =
          .ok (.dense [1], 0) ∧
        ¬ SameOutcome (caching.realize 3 1 none (some (PureJointPolicy.second 7).toJointPolicy))
          (plain.realize 3 1 none (some (PureJointPolicy.second 7).toJointPolicy)) := by
  obtain ⟨caching, made, looks_up⟩ := exists_steady true
  obtain ⟨plain, made', recomputes⟩ := exists_steady false
  have cached : caching.realize 3 1 none (some (PureJointPolicy.second 7).toJointPolicy) =
      .ok (.dense [1], 1) := by
    apply looks_up
    decide +kernel
  have recomputed : plain.realize 3 1 none (some (PureJointPolicy.second 7).toJointPolicy) =
      .ok (.dense [1], 0) := by
    apply recomputes
    decide +kernel
  have reached : caching.jointSymbols .actionObservation 1 = .ok [.actionObservation 0 0] := by
    apply looks_up
    decide +kernel
  have split : caching.jointSymbols .actionObservation 3 =
      .ok [.actionObservation 0 0, .actionObservation 0 0] := by
    apply looks_up
    decide +kernel
  refine ⟨caching, plain, made, made', reached, split, cached, recomputed, ?_⟩
  rw [cached, recomputed]
  simp [SameOutcome, Except.mapError]

end Planner

end TeamPlanning
