import TeamPlanning.Proofs.History.Levels
import TeamPlanning.Proofs.Planner.PathSum
import TeamPlanning.Proofs.Planner.Policies

/-! # Total probability of a stage

Extending a history by all symbols splits its probability among the extensions, once for every joint
action or, under a policy, in the shares in which the policy takes them. So the probabilities of all
histories of a stage add up to a power. -/

set_option autoImplicit false

namespace TeamPlanning

open scoped BigOperators

/-- Visits that split up what a visit to the item itself gives, each by the same factor. -/
theorem mapM_flatMap_sum {ε α : Type} {visit : α → Except ε Rat} {parts : α → List α}
    {factor : Rat} {items : List α} {ps : List Rat} (visited : items.mapM visit = .ok ps)
    (each : ∀ item ∈ items, ∀ p, visit item = .ok p →
      ∃ qs, (parts item).mapM visit = .ok qs ∧ qs.sum = factor * p) :
    ∃ qs, (items.flatMap parts).mapM visit = .ok qs ∧ qs.sum = factor * ps.sum := by
  induction items generalizing ps with
  | nil =>
      cases visited
      exact ⟨[], rfl, (mul_zero factor).symm⟩
  | cons item items ih =>
      cases mapM_eq_ok_iff.mp visited with
      | @cons _ p _ ps first others =>
          obtain ⟨own, before, split⟩ := each item List.mem_cons_self p first
          obtain ⟨rest, after, split'⟩ := ih (mapM_eq_ok_iff.mpr others)
            fun item member => each item (List.mem_cons_of_mem _ member)
          refine ⟨own ++ rest, ?_, ?_⟩
          · rw [List.flatMap_cons, List.mapM_append, bind_of_eq_ok before, bind_of_eq_ok after]
            rfl
          · rw [List.sum_append, split, split', List.sum_cons, mul_add]

namespace Planner

variable {stages : Nat} {planner : Planner Rat} {workspace : Workspace Rat}

/-- The probabilities of all joint histories of a stage, under a policy if there is one. -/
def stageProbabilities (planner : Planner Rat) (policy? : Option (JointPolicy Rat))
    (stage : Nat) : Except Fault (List Rat) := do
  let space ← planner.space .actionObservation
  (space.team.historiesAt stage).mapM fun index => planner.probability index 0 none policy?

/-- After every joint history a total of `share` is put on the joint actions. -/
def Spreads (planner : Planner Rat) (workspace : Workspace Rat)
    (policy? : Option (JointPolicy Rat)) (share : Rat) : Prop :=
  ∀ index, index < workspace.actionObservation.team.total → ∃ choice : Nat → Rat,
    (∀ jointAction, planner.choiceProbability policy?
      (Symbol.observations (workspace.actionObservation.team.word index)) index jointAction =
        .ok (choice jointAction)) ∧
      ∑ jointAction ∈ Finset.range workspace.actionObservation.team.alphabet.actions,
        choice jointAction = share

theorem spreads_none : planner.Spreads workspace none
    workspace.actionObservation.team.alphabet.actions :=
  fun _ _ => ⟨fun _ => 1, fun _ => rfl, by simp⟩

namespace Ready

variable (ready : planner.Ready stages workspace)
include ready

theorem spreads_of_pure {policy : PureJointPolicy}
    (sized : planner.jointDomainSize policy.domain = .ok policy.jointActions.size)
    (known : ∀ jointAction ∈ policy.jointActions,
      jointAction < workspace.actionObservation.team.alphabet.actions)
    (historical : policy.domain ≠ .type) :
    planner.Spreads workspace (some policy.toJointPolicy) 1 := by
  intro index inside
  obtain ⟨taken, member, chosen⟩ := ready.exists_choice sized historical inside
  refine ⟨_, chosen, (Finset.sum_ite_eq (Finset.range _) taken fun _ => (1 : Rat)).trans ?_⟩
  exact if_pos (Finset.mem_range.mpr (known taken member))

/-- What the filter says of a history and what the policy says of it are multiplied. -/
theorem probability_eq_weigh (policy? : Option (JointPolicy Rat)) {index : Nat}
    (inside : index < workspace.actionObservation.team.total) :
    planner.probability index 0 none policy? =
      (planner.weigh policy? (workspace.actionObservation.team.word index) [] 0).map
        ((planner.realizationOf (workspace.actionObservation.team.word index)).unconditional *
          ·) := by
  have empty := workspace.actionObservation.team.word_zero
  cases policy? with
  | none =>
      have realized := ready.realize_answers Rat.mul_one index
      rw [if_pos inside] at realized
      rw [ready.weigh_none [] inside (List.nil_append _).symm empty]
      refine (bind_of_eq_ok realized _).trans ?_
      exact congrArg Except.ok (mul_one _).symm
  | some policy =>
      have walked := ready.walk_eq_weigh (some policy) [] (planner.realizationOf []).belief 1 inside
        (List.nil_append _).symm empty
      have realized : planner.realize index 0 none (some policy) =
          planner.realizeFrom index 0 none (some policy) := rfl
      rw [probability, realized, ready.realizeFrom_zero (some policy) inside, Weight.one_eq, walked,
        realizationOf_unconditional]
      cases planner.weigh (some policy) (workspace.actionObservation.team.word index) [] 0 with
      | error fault => rfl
      | ok w => exact congrArg Except.ok (one_mul _)

theorem probability_concat {policy? : Option (JointPolicy Rat)} {index next : Nat}
    {jointAction jointObservation : Nat} {w choice : Rat}
    (inside : index < workspace.actionObservation.team.total)
    (inside' : next < workspace.actionObservation.team.total)
    (extended : workspace.actionObservation.team.word next =
      workspace.actionObservation.team.word index ++
        [.actionObservation jointAction jointObservation])
    (weighed : planner.weigh policy? (workspace.actionObservation.team.word index) [] 0 = .ok w)
    (chosen : planner.choiceProbability policy?
      (Symbol.observations (workspace.actionObservation.team.word index)) index jointAction =
        .ok choice) :
    planner.probability next 0 none policy? =
      .ok ((planner.realizationOf (workspace.actionObservation.team.word index ++
        [.actionObservation jointAction jointObservation])).unconditional * (w * choice)) := by
  have split : workspace.actionObservation.team.word index =
      workspace.actionObservation.team.word 0 ++ workspace.actionObservation.team.word index := by
    rw [HistorySpace.word_zero, List.nil_append]
  rw [ready.probability_eq_weigh policy? inside', extended,
    ready.weigh_concat [] (Nat.zero_lt_of_lt inside) inside split inside' extended, weighed,
    bind_of_eq_ok rfl, List.nil_append, chosen]
  rfl

variable {policy? : Option (JointPolicy Rat)} {share : Rat}
  (conserved : ∀ word, ∀ jointAction < workspace.actionObservation.team.alphabet.actions,
    ∑ o ∈ Finset.range workspace.actionObservation.team.alphabet.observations,
      (planner.realizationOf (word ++ [.actionObservation jointAction o])).unconditional =
        (planner.realizationOf word).unconditional)
  (spreads : planner.Spreads workspace policy? share)
include conserved spreads

/-- One step: the extensions of a history share its probability. -/
theorem sum_extensions {stage index : Nat} (planned : stage + 1 < stages)
    (member : index ∈ workspace.actionObservation.team.historiesAt stage) {p : Rat}
    (known : planner.probability index 0 none policy? = .ok p) :
    ∃ qs, (workspace.actionObservation.team.extensions index).mapM
        (fun index => planner.probability index 0 none policy?) = .ok qs ∧
      qs.sum = share * p := by
  have inside := (ready.reads.mem_historiesAt_iff.mp member).1
  obtain ⟨choice, chosen, total⟩ := spreads index inside
  obtain ⟨_, base⟩ := Bounded.mul_eq_ok_iff.mp ready.reads.based
  rw [ready.probability_eq_weigh policy? inside] at known
  cases weighed : planner.weigh policy? (workspace.actionObservation.team.word index) [] 0 with
  | error fault =>
      rw [weighed] at known
      cases known
  | ok w =>
      rw [weighed] at known
      cases known
      generalize spelled : workspace.actionObservation.team.word index = word at chosen weighed ⊢
      refine ⟨(List.range workspace.actionObservation.team.base).map fun digit =>
        (planner.realizationOf (word ++ [.ofDigit .actionObservation digit
            workspace.actionObservation.team.alphabet])).unconditional *
          (w * choice (digit / workspace.actionObservation.team.alphabet.observations)), ?_, ?_⟩
      · rw [HistorySpace.extensions, mapM_eq_ok_iff, List.forall₂_map_left_iff,
          List.forall₂_map_right_iff, List.forall₂_same]
        intro digit listed
        have below := List.mem_range.mp listed
        rw [← spelled] at chosen weighed ⊢
        exact ready.probability_concat inside (ready.reads.extension_lt planned member below)
          (HistorySpace.word_extension _ index below) weighed (chosen _)
      · -- For each joint action the observations share the evidence, and the policy adds its share.
        rw [base]
        refine (sum_range_pairs _ _ fun jointAction o =>
          (planner.realizationOf (word ++ [.actionObservation jointAction o])).unconditional *
            (w * choice jointAction)).trans ?_
        rw [← total, Finset.sum_mul]
        refine Finset.sum_congr rfl fun jointAction listed => ?_
        rw [← Finset.sum_mul, conserved word jointAction (Finset.mem_range.mp listed)]
        ring

/-- The whole run: stage by stage the probabilities add up to one power more of the share. -/
theorem sum_stageProbabilities (unit : (planner.realizationOf []).unconditional = 1) {stage : Nat}
    (planned : stage < stages) :
    ∃ ps, planner.stageProbabilities policy? stage = .ok ps ∧ ps.sum = share ^ stage := by
  have read := bind_of_eq_ok (ready.space .actionObservation) fun space =>
    (space.team.historiesAt stage).mapM fun index => planner.probability index 0 none policy?
  rw [stageProbabilities, read, Workspace.space]
  clear read
  induction stage with
  | zero =>
      have inside := ready.reads.total_pos planned
      refine ⟨[1], ?_, by simp⟩
      rw [ready.reads.historiesAt_zero planned, mapM_eq_ok_iff]
      refine .cons ?_ .nil
      rw [ready.probability_eq_weigh policy? inside, HistorySpace.word_zero, unit]
      exact congrArg Except.ok (one_mul (1 : Rat))
  | succ stage ih =>
      obtain ⟨ps, visited, sum⟩ := ih (Nat.lt_of_succ_lt planned)
      obtain ⟨qs, visited', sum'⟩ := mapM_flatMap_sum visited fun index member p known =>
        ready.sum_extensions conserved spreads planned member known
      refine ⟨qs, ?_, ?_⟩
      · rw [ready.reads.historiesAt_succ planned]
        exact visited'
      · rw [sum', sum, pow_succ, mul_comm]

end Ready

/-- Without a policy the probabilities of a stage count the sequences of joint actions, and under a
joint policy over histories they add up to one. -/
theorem stageProbabilities_sum {model : Model Rat} {settings : Settings} (built : model.Built)
    (stochastic : model.Stochastic settings.eventObservability)
    (dense : settings.sparseBeliefs = false)
    (serves : Serves model.process stages settings planner) {stage : Nat}
    (planned : stage < stages) :
    (∃ ps, planner.stageProbabilities none stage = .ok ps ∧
        ps.sum = model.jointActions ^ stage) ∧
      ∀ policies policy, planner.joinPolicies policies = .ok policy → policy.domain ≠ .type →
        ∃ ps, planner.stageProbabilities (some policy.toJointPolicy) stage = .ok ps ∧
          ps.sum = 1 := by
  obtain ⟨same, rfl, workspace, ready⟩ := serves.ready
  have filtered := fun word => (realizationOf_eq_forward built stochastic.nonneg
    stochastic.initial same dense word).2
  have joint := ready.intact.1
  rw [same] at joint
  have alphabet : workspace.actionObservation.team.alphabet =
      ⟨model.jointActions, model.jointObservations⟩ :=
    Except.ok.inj (joint.symm.trans built.sound.joint)
  have conserved : ∀ word, ∀ jointAction < workspace.actionObservation.team.alphabet.actions,
      ∑ o ∈ Finset.range workspace.actionObservation.team.alphabet.observations,
        (planner.realizationOf (word ++ [.actionObservation jointAction o])).unconditional =
          (planner.realizationOf word).unconditional := by
    intro word jointAction known
    rw [alphabet] at known ⊢
    simp only [filtered]
    refine DecisionProcess.sum_evidence_concat (fun state inside => ?_) word
    exact DecisionProcess.sum_passage (stochastic.transition state inside jointAction known)
      (stochastic.observation state inside jointAction known)
  have unit : (planner.realizationOf []).unconditional = 1 := rfl
  refine ⟨?_, fun policies policy joined historical => ?_⟩
  · have sum := ready.sum_stageProbabilities conserved spreads_none unit planned
    rwa [alphabet] at sum
  · obtain ⟨sized, known⟩ := joinPolicies_eq_ok joined
    rw [same, built.sound.actionSizes_prod] at known
    have spreads := ready.spreads_of_pure sized (by rwa [alphabet]) historical
    have sum := ready.sum_stageProbabilities conserved spreads unit planned
    rwa [one_pow] at sum

theorem stageProbabilities_sum_drawn :
    ∃ (model : Model Rat) (planner : Planner Rat) (policy : PureJointPolicy),
      model.Built ∧ model.Stochastic Settings.nothing.eventObservability ∧
        Settings.nothing.sparseBeliefs = false ∧
        Serves model.process 3 Settings.nothing planner ∧ 2 < 3 ∧
        planner.joinPolicies [⟨.observationHistory, #[0, 1, 0, 1, 1, 0, 0]⟩] = .ok policy ∧
        policy.domain ≠ .type ∧
        (∃ ps, planner.stageProbabilities none 2 = .ok ps ∧ ps.sum = model.jointActions ^ 2) ∧
        ∃ ps, planner.stageProbabilities (some policy.toJointPolicy) 2 = .ok ps ∧ ps.sum = 1 := by
  obtain ⟨model, planner, built, made, answers⟩ := exists_drawn
  have stochastic : model.Stochastic Settings.nothing.eventObservability :=
    of_decide_eq_true (Except.ok.inj
      (answers (fun model _ => .ok (decide (model.Stochastic Settings.nothing.eventObservability)))
        true (by decide +kernel)))
  have joined := answers
    (fun _ planner => planner.joinPolicies [⟨.observationHistory, #[0, 1, 0, 1, 1, 0, 0]⟩])
    ⟨.observationHistory, #[0, 1, 0, 1, 1, 0, 0]⟩ (by decide +kernel)
  obtain ⟨given, chosen⟩ :=
    stageProbabilities_sum built stochastic rfl (.created made) (show 2 < 3 by decide)
  exact ⟨model, planner, _, built, stochastic, rfl, .created made, by decide, joined, by decide,
    given, chosen _ _ joined (by decide)⟩

end Planner

end TeamPlanning
