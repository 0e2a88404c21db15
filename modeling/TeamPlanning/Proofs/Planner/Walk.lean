import TeamPlanning.Proofs.Likelihood
import TeamPlanning.Proofs.Planner.Service

/-! # Walks along histories

A planner works out a belief and a probability symbol by symbol. Without a policy to consult the
walk ends where the realization of the same symbols does. With one, over exact weights, the
probability is that of the symbols times that of the joint actions. -/

set_option autoImplicit false

namespace TeamPlanning.Planner

variable {W : Type} [Weight W]

/-- The realization that the symbols of a joint action-observation history lead to. -/
def realizationOf (planner : Planner W) (word : List (Symbol .actionObservation)) :
    Realization W :=
  (Realization.start planner.process planner.settings.sparseBeliefs).along planner.process
    planner.settings.eventObservability word

theorem realizationOf_append (planner : Planner W)
    (first second : List (Symbol .actionObservation)) :
    planner.realizationOf (first ++ second) =
      (planner.realizationOf first).along planner.process planner.settings.eventObservability
        second :=
  Realization.along_append first second

theorem replay_eq_along (planner : Planner W) (realization : Realization W)
    (word : List (Symbol .actionObservation)) :
    planner.replay realization.belief word =
      (realization.along planner.process planner.settings.eventObservability word).belief := by
  induction word generalizing realization with
  | nil => rfl
  | cons symbol word ih =>
      cases symbol with
      | actionObservation jointAction jointObservation =>
          exact ih (realization.extend planner.process planner.settings.eventObservability
            (.actionObservation jointAction jointObservation))

variable {stages : Nat} {planner : Planner W} {workspace : Workspace W}

namespace Ready

variable (ready : planner.Ready stages workspace)
include ready

theorem jointSymbols_answers (index : Nat) :
    Answers (planner.jointSymbols .actionObservation index)
      (if index < workspace.actionObservation.team.total then
        some (workspace.actionObservation.team.word index)
      else none) := by
  rw [jointSymbols, bind_of_eq_ok (ready.space .actionObservation)]
  exact ready.reads.symbols index

theorem exists_next {index : Nat} {former later : List (Symbol .actionObservation)}
    {symbol : Symbol .actionObservation} (inside : index < workspace.actionObservation.team.total)
    (split : workspace.actionObservation.team.word index = former ++ symbol :: later) :
    ∃ next, next < workspace.actionObservation.team.total ∧
      workspace.actionObservation.team.word next = former ++ [symbol] :=
  ready.reads.earlier inside (split.trans (List.append_cons former symbol later))

/-- One step of a walk on the way to a history: only the policy may refuse it. -/
theorem walk_cons {policy? : Option (JointPolicy W)} {jointAction jointObservation : Nat}
    {word : List (Symbol .actionObservation)} {seen : List Nat} {current next : Nat}
    (inside : next < workspace.actionObservation.team.total)
    (extended : workspace.actionObservation.team.word next =
      workspace.actionObservation.team.word current ++
        [.actionObservation jointAction jointObservation]) (belief : Belief W) (p : W) :
    planner.walk policy? (.actionObservation jointAction jointObservation :: word) seen current
        belief p =
      planner.choiceProbability policy? seen current jointAction >>= fun choice =>
        planner.walk policy? word (seen ++ [jointObservation]) next
          (belief.update planner.process jointAction jointObservation
            planner.settings.eventObservability).2
          (p * ((belief.update planner.process jointAction jointObservation
            planner.settings.eventObservability).1 * choice)) := by
  have stepped := ready.reads.successor current next _ inside extended
  rw [walk]
  generalize belief.update planner.process jointAction jointObservation
    planner.settings.eventObservability = updated
  cases planner.choiceProbability policy? seen current jointAction with
  | error fault => rfl
  | ok choice =>
      refine (bind_of_eq_ok (ready.space .actionObservation) _).trans ?_
      exact bind_of_eq_ok stepped _

/-- Without a policy every action has probability one, and nothing but the filter counts. -/
theorem walk_given (neutral : ∀ x : W, x * Weight.one = x) {index current : Nat}
    {former later : List (Symbol .actionObservation)} (seen : List Nat)
    (realization : Realization W) (inside : index < workspace.actionObservation.team.total)
    (split : workspace.actionObservation.team.word index = former ++ later)
    (reached : workspace.actionObservation.team.word current = former) :
    planner.walk none later seen current realization.belief realization.unconditional =
      .ok ((realization.along planner.process planner.settings.eventObservability later).belief,
        (realization.along planner.process planner.settings.eventObservability
          later).unconditional) := by
  induction later generalizing former seen current realization with
  | nil => rfl
  | cons symbol later ih =>
      cases symbol with
      | actionObservation jointAction jointObservation =>
          obtain ⟨next, present, spelled⟩ := ready.exists_next inside split
          have rest := ih (seen ++ [jointObservation])
            (realization.extend planner.process planner.settings.eventObservability
              (.actionObservation jointAction jointObservation))
            (by rw [split]; simp) spelled
          have chosen : planner.choiceProbability none seen current jointAction =
              .ok Weight.one := rfl
          rw [ready.walk_cons present (by rw [spelled, reached]), bind_of_eq_ok chosen, neutral]
          exact rest

theorem stageOf_eq_ok {index : Nat} (inside : index < workspace.actionObservation.team.total) :
    workspace.actionObservation.team.stageOf index =
      .ok (workspace.actionObservation.team.word index).length :=
  ready.reads.stageOf_eq_ok_iff.mpr ⟨inside, rfl⟩

theorem jointSymbols_eq_ok_iff {index : Nat} {word : List (Symbol .actionObservation)} :
    planner.jointSymbols .actionObservation index = .ok word ↔
      index < workspace.actionObservation.team.total ∧
        workspace.actionObservation.team.word index = word := by
  rw [jointSymbols, bind_of_eq_ok (ready.space .actionObservation)]
  exact ready.reads.symbols_eq_ok_iff

theorem jointSymbols_eq_ok {index : Nat}
    (inside : index < workspace.actionObservation.team.total) :
    planner.jointSymbols .actionObservation index =
      .ok (workspace.actionObservation.team.word index) :=
  ready.jointSymbols_eq_ok_iff.mpr ⟨inside, rfl⟩

theorem realizeFrom_zero (policy? : Option (JointPolicy W)) {index : Nat}
    (inside : index < workspace.actionObservation.team.total) :
    planner.realizeFrom index 0 none policy? =
      planner.walk policy? (workspace.actionObservation.team.word index) [] 0
        (planner.realizationOf []).belief Weight.one := by
  have first := ready.stageOf_eq_ok (Nat.zero_lt_of_lt inside)
  rw [HistorySpace.word_zero] at first
  rw [realizeFrom, bind_of_eq_ok (ready.space .actionObservation), Workspace.space,
    bind_of_eq_ok (ready.stageOf_eq_ok inside), bind_of_eq_ok first,
    bind_of_eq_ok (ready.jointSymbols_eq_ok inside)]
  rfl

/-- A predecessor that the history properly extends passes every check. -/
theorem realizeFrom_after (policy? : Option (JointPolicy W)) {index predecessor : Nat}
    {later : List (Symbol .actionObservation)}
    (inside : index < workspace.actionObservation.team.total)
    (split : workspace.actionObservation.team.word index =
      workspace.actionObservation.team.word predecessor ++ later)
    (proper : later ≠ []) (begun : predecessor ≠ 0)
    (before : predecessor < workspace.actionObservation.team.total) :
    planner.realizeFrom index predecessor none policy? =
      planner.realizeAfter index predecessor
        (workspace.actionObservation.team.word predecessor).length
        (workspace.actionObservation.team.word index) policy? := by
  have longer : (workspace.actionObservation.team.word predecessor).length <
      (workspace.actionObservation.team.word index).length := by
    have positive := List.length_pos_iff.mpr proper
    rw [split, List.length_append]
    omega
  have continued : planner.extendsHistory (workspace.actionObservation.team.word index) predecessor
      (workspace.actionObservation.team.word predecessor).length = .ok true := by
    rw [extendsHistory, if_neg (Nat.not_le_of_lt longer)]
    refine (bind_of_eq_ok (ready.jointSymbols_eq_ok before) _).trans ?_
    rw [split, List.take_left, beq_self_eq_true]
    rfl
  rw [realizeFrom, bind_of_eq_ok (ready.space .actionObservation), Workspace.space,
    bind_of_eq_ok (ready.stageOf_eq_ok inside), bind_of_eq_ok (ready.stageOf_eq_ok before),
    bind_of_eq_ok (ready.jointSymbols_eq_ok inside)]
  simp only [begun, ne_eq, not_false_eq_true, ↓reduceIte]
  rw [bind_of_eq_ok continued]
  rfl

end Ready

/-- The product of the probabilities with which a policy takes the joint actions of a walk. -/
def weigh (planner : Planner W) (policy? : Option (JointPolicy W)) :
    List (Symbol .actionObservation) → (seen : List Nat) → (current : Nat) → Except Fault W
  | [], _, _ => .ok Weight.one
  | .actionObservation jointAction jointObservation :: symbols, seen, current => do
      let choice ← planner.choiceProbability policy? seen current jointAction
      let next ← (← planner.space .actionObservation).team.successor current
        (.actionObservation jointAction jointObservation)
      let rest ← weigh planner policy? symbols (seen ++ [jointObservation]) next
      return choice * rest

variable {planner : Planner Rat} {workspace : Workspace Rat}

theorem realizationOf_unconditional (word : List (Symbol .actionObservation)) :
    (planner.realizationOf word).unconditional =
      (planner.realizationOf []).belief.likelihood planner.process
        planner.settings.eventObservability word := by
  rw [realizationOf, (Belief.along_eq _ word).2]
  exact Rat.one_mul _

theorem realizationOf_belief (word : List (Symbol .actionObservation)) :
    (planner.realizationOf word).belief =
      (planner.realizationOf []).belief.after planner.process planner.settings.eventObservability
        word :=
  (Belief.along_eq _ word).1

namespace Ready

variable (ready : planner.Ready stages workspace)
include ready

theorem weigh_cons {policy? : Option (JointPolicy Rat)} {jointAction jointObservation : Nat}
    {word : List (Symbol .actionObservation)} {seen : List Nat} {current next : Nat}
    (inside : next < workspace.actionObservation.team.total)
    (extended : workspace.actionObservation.team.word next =
      workspace.actionObservation.team.word current ++
        [.actionObservation jointAction jointObservation]) :
    planner.weigh policy? (.actionObservation jointAction jointObservation :: word) seen current =
      planner.choiceProbability policy? seen current jointAction >>= fun choice =>
        (planner.weigh policy? word (seen ++ [jointObservation]) next).map (choice * ·) := by
  have stepped := ready.reads.successor current next _ inside extended
  rw [weigh]
  cases planner.choiceProbability policy? seen current jointAction with
  | error fault => rfl
  | ok choice =>
      refine (bind_of_eq_ok (ready.space .actionObservation) _).trans ?_
      refine (bind_of_eq_ok stepped _).trans ?_
      cases planner.weigh policy? word (seen ++ [jointObservation]) next with
      | error fault => rfl
      | ok rest => rfl

theorem weigh_none {index current : Nat} {former later : List (Symbol .actionObservation)}
    (seen : List Nat) (inside : index < workspace.actionObservation.team.total)
    (split : workspace.actionObservation.team.word index = former ++ later)
    (reached : workspace.actionObservation.team.word current = former) :
    planner.weigh none later seen current = .ok 1 := by
  induction later generalizing former seen current with
  | nil => rfl
  | cons symbol later ih =>
      cases symbol with
      | actionObservation jointAction jointObservation =>
          obtain ⟨next, present, spelled⟩ := ready.exists_next inside split
          have chosen : planner.choiceProbability none seen current jointAction = .ok 1 := rfl
          rw [ready.weigh_cons present (spelled.trans (congrArg (· ++ _) reached.symm)),
            bind_of_eq_ok chosen, ih _ (by rw [split]; simp) spelled]
          exact congrArg Except.ok (Rat.mul_one 1)

/-- A walk multiplies up the likelihood of its symbols and the weights of the policy, each on its
own, and fails where the policy does. -/
theorem walk_eq_weigh (policy? : Option (JointPolicy Rat)) {index current : Nat}
    {former later : List (Symbol .actionObservation)} (seen : List Nat) (belief : Belief Rat)
    (p : Rat) (inside : index < workspace.actionObservation.team.total)
    (split : workspace.actionObservation.team.word index = former ++ later)
    (reached : workspace.actionObservation.team.word current = former) :
    planner.walk policy? later seen current belief p =
      (planner.weigh policy? later seen current).map fun w =>
        (belief.after planner.process planner.settings.eventObservability later,
          p * (belief.likelihood planner.process planner.settings.eventObservability later *
            w)) := by
  induction later generalizing former seen current belief p with
  | nil =>
      have nothing : p * (1 * 1) = p := by ring
      exact congrArg (fun q => Except.ok (belief, q)) nothing.symm
  | cons symbol later ih =>
      cases symbol with
      | actionObservation jointAction jointObservation =>
          obtain ⟨next, present, spelled⟩ := ready.exists_next inside split
          have extended := spelled.trans (congrArg (· ++ _) reached.symm)
          rw [ready.walk_cons present extended, ready.weigh_cons present extended]
          cases planner.choiceProbability policy? seen current jointAction with
          | error fault => rfl
          | ok choice =>
              rw [bind_of_eq_ok rfl, bind_of_eq_ok rfl,
                ih _ _ _ (by rw [split]; simp) spelled]
              cases planner.weigh policy? later (seen ++ [jointObservation]) next with
              | error fault => rfl
              | ok rest =>
                  simp only [Except.map, Belief.after, Belief.likelihood]
                  congr 2
                  ring

theorem weigh_concat {policy? : Option (JointPolicy Rat)} {jointAction jointObservation : Nat}
    {later : List (Symbol .actionObservation)} {index current next : Nat} (seen : List Nat)
    (present : current < workspace.actionObservation.team.total)
    (inside : index < workspace.actionObservation.team.total)
    (split : workspace.actionObservation.team.word index =
      workspace.actionObservation.team.word current ++ later)
    (inside' : next < workspace.actionObservation.team.total)
    (extended : workspace.actionObservation.team.word next =
      workspace.actionObservation.team.word index ++
        [.actionObservation jointAction jointObservation]) :
    planner.weigh policy? (later ++ [.actionObservation jointAction jointObservation]) seen
        current =
      planner.weigh policy? later seen current >>= fun w =>
        (planner.choiceProbability policy? (seen ++ Symbol.observations later) index
          jointAction).map (w * ·) := by
  -- The weights are taken from the front, so what is added at the end passes through every step.
  induction later generalizing seen current with
  | nil =>
      rw [List.append_nil] at split
      obtain rfl := ready.reads.word_injective inside present split
      have observed : seen ++ Symbol.observations (c := .actionObservation) [] = seen :=
        List.append_nil seen
      rw [observed, List.nil_append, ready.weigh_cons inside' extended]
      cases planner.choiceProbability policy? seen index jointAction with
      | error fault => rfl
      | ok choice => exact congrArg Except.ok (mul_comm choice 1)
  | cons symbol later ih =>
      cases symbol with
      | actionObservation jointAction' jointObservation' =>
          obtain ⟨middle, between, spelled⟩ := ready.exists_next inside split
          have observed :
              seen ++ Symbol.observations (.actionObservation jointAction' jointObservation' ::
                later) = seen ++ [jointObservation'] ++ Symbol.observations later := by
            simp [Symbol.observations]
          rw [List.cons_append, ready.weigh_cons between spelled, ready.weigh_cons between spelled,
            observed]
          cases planner.choiceProbability policy? seen current jointAction' with
          | error fault => rfl
          | ok first =>
              rw [bind_of_eq_ok rfl, bind_of_eq_ok rfl,
                ih (seen ++ [jointObservation']) between (by rw [split, spelled]; simp)]
              cases planner.weigh policy? later (seen ++ [jointObservation']) middle with
              | error fault => rfl
              | ok rest =>
                  cases planner.choiceProbability policy?
                      (seen ++ [jointObservation'] ++ Symbol.observations later) index
                      jointAction with
                  | error fault => rfl
                  | ok last => exact congrArg Except.ok (mul_assoc first rest last).symm

end Ready

end TeamPlanning.Planner
