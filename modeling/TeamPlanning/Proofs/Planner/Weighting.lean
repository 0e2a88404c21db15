import TeamPlanning.Proofs.Planner.Predecessors
import TeamPlanning.Proofs.Planner.TotalProbability

/-! # What a policy weighs

A joint policy weighs a realization by the probabilities of its own choices: for every step, the
probability of the joint action taken at the joint element of its domain that the steps before lead
to. The filter has no part in that, so the probability is the product of the two. A pure joint
policy leaves the probability as it is, or nothing of it. -/

set_option autoImplicit false

namespace TeamPlanning.Planner

section Weights

variable {W : Type} [Weight W] {planner : Planner W} {policy? : Option (JointPolicy W)}

/-- The weights along a word are those of its joint actions, each after the symbols before it. -/
theorem weightsAlong_eq_ok_iff {history word : List (Symbol .actionObservation)}
    {weights : List W} :
    planner.weightsAlong policy? history word = .ok weights ↔
      weights.length = word.length ∧ ∀ (place : Nat) jointAction jointObservation weight,
        word[place]? = some (.actionObservation jointAction jointObservation) →
          weights[place]? = some weight →
            planner.weightAfter policy? (history ++ word.take place) jointAction = .ok weight := by
  induction word generalizing history weights with
  | nil =>
      rw [weightsAlong, List.length_nil, List.length_eq_zero_iff, Except.ok.injEq, eq_comm]
      simp
  | cons symbol word ih =>
      cases symbol with
      | actionObservation jointAction jointObservation =>
          rw [weightsAlong]
          constructor
          · intro weighed
            obtain ⟨weight, first, weighed⟩ := bind_eq_ok_iff.mp weighed
            obtain ⟨rest, others, weighed⟩ := bind_eq_ok_iff.mp weighed
            cases weighed
            obtain ⟨matched, each⟩ := ih.mp others
            refine ⟨congrArg Nat.succ matched, fun place action observation found listed held => ?_⟩
            cases place with
            | zero =>
                cases listed
                cases held
                rw [List.take_zero, List.append_nil]
                exact first
            | succ place =>
                have later := each place action observation found listed held
                rwa [List.append_assoc] at later
          · intro given
            obtain ⟨matched, each⟩ := given
            cases weights with
            | nil => cases matched
            | cons weight rest =>
                have first := each 0 jointAction jointObservation weight rfl rfl
                rw [List.take_zero, List.append_nil] at first
                have others : planner.weightsAlong policy?
                    (history ++ [.actionObservation jointAction jointObservation]) word =
                      .ok rest := by
                  refine ih.mpr ⟨Nat.succ.inj matched,
                    fun place action observation found listed held => ?_⟩
                  rw [List.append_assoc]
                  exact each (place + 1) action observation found listed held
                rw [bind_of_eq_ok first, bind_of_eq_ok others]
                rfl

theorem weightAfter_some_eq_ok_iff {policy : JointPolicy W}
    {history : List (Symbol .actionObservation)} {jointAction : Nat} {weight : W} :
    planner.weightAfter (some policy) history jointAction = .ok weight ↔
      ∃ element, planner.elementAfter history policy.domain = .ok element ∧
        policy.probability element jointAction = .ok weight :=
  bind_eq_ok_iff

/-- A pure joint policy with an element for every joint history of its domain covers the domain. -/
theorem covers_toJointPolicy {policy : PureJointPolicy}
    (sized : planner.jointDomainSize policy.domain = .ok policy.jointActions.size)
    (historical : policy.domain ≠ .type) : planner.Covers policy.toJointPolicy := by
  refine ⟨historical, fun elements _ counted _ joint inside jointAction _ => ?_⟩
  obtain rfl : policy.jointActions.size = elements := Except.ok.inj (sized.symm.trans counted)
  exact ⟨_, probability_toJointPolicy (Array.getElem?_eq_getElem inside) jointAction⟩

/-- At every step of the word the policy takes the joint action that was taken. -/
def Takes (planner : Planner W) (policy : PureJointPolicy)
    (word : List (Symbol .actionObservation)) : Prop :=
  ∀ (place : Nat) jointAction jointObservation,
    word[place]? = some (.actionObservation jointAction jointObservation) →
      ∃ element, planner.elementAfter (word.take place) policy.domain = .ok element ∧
        policy.jointAction element = .ok jointAction

end Weights

variable {stages : Nat} {planner : Planner Rat}

namespace Ready

variable {workspace : Workspace Rat} (ready : planner.Ready stages workspace)
include ready

/-- The walk by numbers multiplies up the weights that the words call for. -/
theorem weigh_eq_weightsAlong (policy? : Option (JointPolicy Rat)) {index current : Nat}
    {later : List (Symbol .actionObservation)}
    (inside : index < workspace.actionObservation.team.total)
    (present : current < workspace.actionObservation.team.total)
    (split : workspace.actionObservation.team.word index =
      workspace.actionObservation.team.word current ++ later) :
    planner.weigh policy? later
        (Symbol.observations (workspace.actionObservation.team.word current)) current =
      (planner.weightsAlong policy? (workspace.actionObservation.team.word current) later).map
        List.prod := by
  induction later generalizing current with
  | nil => rfl
  | cons symbol later ih =>
      cases symbol with
      | actionObservation jointAction jointObservation =>
          obtain ⟨next, present', spelled⟩ := ready.exists_next inside split
          have rest := ih present' (by rw [split, spelled]; simp)
          rw [spelled, observations_concat] at rest
          rw [ready.weigh_cons present' spelled, ready.choiceProbability_eq present, weightsAlong,
            rest]
          cases planner.weightAfter policy? (workspace.actionObservation.team.word current)
              jointAction with
          | error fault => rfl
          | ok weight =>
              rw [bind_of_eq_ok rfl, bind_of_eq_ok rfl]
              cases planner.weightsAlong policy? (workspace.actionObservation.team.word current ++
                  [.actionObservation jointAction jointObservation]) later with
              | error fault => rfl
              | ok weights => exact congrArg Except.ok List.prod_cons.symm

end Ready

theorem exists_taken_of_weightAfter {policy : PureJointPolicy}
    {history : List (Symbol .actionObservation)} {jointAction : Nat} {weight : Rat}
    (weighed : planner.weightAfter (some policy.toJointPolicy) history jointAction = .ok weight) :
    ∃ element taken, planner.elementAfter history policy.domain = .ok element ∧
      policy.jointAction element = .ok taken ∧
        weight = if taken = jointAction then 1 else 0 := by
  obtain ⟨element, found, chosen⟩ := weightAfter_some_eq_ok_iff.mp weighed
  obtain ⟨taken, known, made⟩ := bind_eq_ok_iff.mp chosen
  exact ⟨element, taken, found, known, (Except.ok.inj made).symm⟩

/-- The weights of a pure joint policy are one where it takes the joint action and zero elsewhere. -/
theorem prod_weights_of_pure {policy : PureJointPolicy} {word : List (Symbol .actionObservation)}
    {weights : List Rat}
    (weighed : planner.weightsAlong (some policy.toJointPolicy) [] word = .ok weights) :
    (planner.Takes policy word → weights.prod = 1) ∧
      (¬ planner.Takes policy word → weights.prod = 0) := by
  obtain ⟨matched, each⟩ := weightsAlong_eq_ok_iff.mp weighed
  simp only [List.nil_append] at each
  constructor
  · intro takes
    refine List.prod_eq_one fun weight member => ?_
    obtain ⟨place, held⟩ := List.mem_iff_getElem?.mp member
    have inside := (List.getElem?_eq_some_iff.mp held).1
    rw [matched] at inside
    cases symbol_eq : word[place] with
    | actionObservation jointAction jointObservation =>
        have listed : word[place]? = some (.actionObservation jointAction jointObservation) := by
          rw [List.getElem?_eq_getElem inside, symbol_eq]
        obtain ⟨element, taken, found, known, rfl⟩ :=
          exists_taken_of_weightAfter (each _ _ _ _ listed held)
        obtain ⟨element', found', known'⟩ := takes _ _ _ listed
        rw [found] at found'
        cases found'
        rw [known] at known'
        cases known'
        exact if_pos rfl
  · intro refuses
    simp only [Takes, not_forall] at refuses
    obtain ⟨place, jointAction, jointObservation, listed, refuses⟩ := refuses
    have inside := (List.getElem?_eq_some_iff.mp listed).1
    rw [← matched] at inside
    have held := List.getElem?_eq_getElem inside
    obtain ⟨element, taken, found, known, weight_eq⟩ :=
      exists_taken_of_weightAfter (each _ _ _ _ listed held)
    have other : taken ≠ jointAction := fun same => refuses ⟨element, found, same ▸ known⟩
    rw [if_neg other] at weight_eq
    exact List.prod_eq_zero (weight_eq ▸ List.getElem_mem inside)

/-- Under a policy that covers its domain the probability of a history is the one without a policy
times the probabilities with which the policy takes the joint actions: that of each step at the joint
element that the steps before lead to. Under a pure one it is the probability without a policy, or
zero if the policy takes another joint action at some step. -/
theorem probability_eq_mul_choices {process : DecisionProcess Rat} {settings : Settings}
    (serves : Serves process stages settings planner) {index : Nat}
    {word : List (Symbol .actionObservation)}
    (spelled : planner.jointSymbols .actionObservation index = .ok word)
    {policy : JointPolicy Rat} (covers : planner.Covers policy) :
    ∃ (given : Rat) (choices : List Rat),
      planner.probability index 0 none none = .ok given ∧
      planner.probability index 0 none (some policy) = .ok (given * choices.prod) ∧
      choices.length = word.length ∧
      (∀ (place : Nat) jointAction jointObservation,
        word[place]? = some (.actionObservation jointAction jointObservation) →
          ∃ element choice, planner.elementAfter (word.take place) policy.domain = .ok element ∧
            policy.probability element jointAction = .ok choice ∧
              choices[place]? = some choice) ∧
      ∀ pure : PureJointPolicy, policy = pure.toJointPolicy →
        (planner.Takes pure word →
          planner.probability index 0 none (some policy) = .ok given) ∧
          (¬ planner.Takes pure word →
            planner.probability index 0 none (some policy) = .ok 0) := by
  obtain ⟨_, _, workspace, ready⟩ := serves.ready
  obtain ⟨inside, rfl⟩ := ready.jointSymbols_eq_ok_iff.mp spelled
  have present := Nat.zero_lt_of_lt inside
  have split : workspace.actionObservation.team.word index =
      workspace.actionObservation.team.word 0 ++
        workspace.actionObservation.team.word index := by simp
  have covered : ∀ other, some policy = some other → planner.Covers other :=
    fun _ same => Option.some.inj same ▸ covers
  obtain ⟨choices, weighed⟩ := ready.exists_weightsAlong covered inside present split
  have weighed' := ready.weigh_eq_weightsAlong (some policy) inside present split
  rw [weighed, HistorySpace.word_zero] at weighed'
  rw [HistorySpace.word_zero] at weighed
  have alone := ready.probability_eq_weigh none inside
  rw [ready.weigh_none [] inside (List.nil_append _).symm (HistorySpace.word_zero _)] at alone
  have under := ready.probability_eq_weigh (some policy) inside
  rw [show planner.weigh (some policy) (workspace.actionObservation.team.word index) [] 0 =
    .ok choices.prod from weighed'] at under
  obtain ⟨matched, each⟩ := weightsAlong_eq_ok_iff.mp weighed
  refine ⟨_, choices, alone, ?_, matched, ?_, ?_⟩
  · rw [under]
    exact congrArg (fun p => Except.ok (p * choices.prod)) (Rat.mul_one _).symm
  · intro place jointAction jointObservation listed
    have room := (List.getElem?_eq_some_iff.mp listed).1
    rw [← matched] at room
    have held := List.getElem?_eq_getElem room
    obtain ⟨element, found, chosen⟩ := weightAfter_some_eq_ok_iff.mp
      (each place jointAction jointObservation _ listed held)
    exact ⟨element, _, found, chosen, held⟩
  · rintro pure rfl
    obtain ⟨whole, nothing⟩ := prod_weights_of_pure weighed
    rw [under]
    refine ⟨fun takes => ?_, fun refuses => ?_⟩
    · rw [whole takes]
      rfl
    · rw [nothing refuses]
      exact congrArg Except.ok (Rat.mul_zero _)

/-- Two steps of a drawn model, of which the policy takes the first joint action and then, at the joint
observation history that the first step leads to, the second one. -/
theorem probability_eq_mul_choices_drawn :
    ∃ (model : Model Rat) (planner : Planner Rat) (policy : PureJointPolicy),
      Serves model.process 3 Settings.nothing planner ∧
        planner.joinPolicies [⟨.observationHistory, #[0, 1, 0, 1, 1, 0, 0]⟩] = .ok policy ∧
        planner.jointSymbols .actionObservation 7 =
          .ok [.actionObservation 0 0, .actionObservation 1 0] ∧
        planner.Covers policy.toJointPolicy ∧
        planner.Takes policy [.actionObservation 0 0, .actionObservation 1 0] ∧
        ∃ given, planner.probability 7 0 none none = .ok given ∧
          planner.probability 7 0 none (some policy.toJointPolicy) = .ok given := by
  obtain ⟨model, planner, _, made, answers⟩ := exists_drawn
  have joined := answers
    (fun _ planner => planner.joinPolicies [⟨.observationHistory, #[0, 1, 0, 1, 1, 0, 0]⟩])
    ⟨.observationHistory, #[0, 1, 0, 1, 1, 0, 0]⟩ (by decide +kernel)
  have spelled := answers (fun _ planner => planner.jointSymbols .actionObservation 7)
    [.actionObservation 0 0, .actionObservation 1 0] (by decide +kernel)
  have covers := covers_toJointPolicy (joinPolicies_eq_ok joined).1 (by simp)
  have takes : planner.Takes ⟨.observationHistory, #[0, 1, 0, 1, 1, 0, 0]⟩
      [.actionObservation 0 0, .actionObservation 1 0] := by
    intro place jointAction jointObservation listed
    match place with
    | 0 =>
        cases listed
        exact ⟨0, answers (fun _ planner => planner.elementAfter [] .observationHistory) 0
          (by decide +kernel), rfl⟩
    | 1 =>
        cases listed
        exact ⟨1, answers (fun _ planner =>
          planner.elementAfter [.actionObservation 0 0] .observationHistory) 1
          (by decide +kernel), rfl⟩
  obtain ⟨given, _, alone, _, _, _, pure⟩ :=
    probability_eq_mul_choices (.created made) spelled covers
  exact ⟨model, planner, _, .created made, joined, spelled, covers, takes, given, alone,
    (pure _ rfl).1 takes⟩

end TeamPlanning.Planner
