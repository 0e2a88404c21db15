import TeamPlanning.Proofs.Planner.Conditional
import TeamPlanning.Proofs.Planner.Policies

/-! # Predecessors with a belief to start from

From a belief that is given for a predecessor, a realization filters that belief through the further
symbols and multiplies up the probabilities of the observations, each times the weight of the joint
action, from the left. The rule goes by the words of both histories; the planner goes by their
numbers. The two agree but for one case: a history other than the empty one that is its own
predecessor. -/

set_option autoImplicit false

namespace TeamPlanning

variable {W : Type} [Weight W]

/-- The probabilities of the observations of a word, one by one, and the belief at its end. -/
def Belief.filterAlong (process : DecisionProcess W) (event : Bool) :
    Belief W → List (Symbol .actionObservation) → List W × Belief W
  | belief, [] => ([], belief)
  | belief, .actionObservation jointAction jointObservation :: word =>
      let (mass, next) := belief.update process jointAction jointObservation event
      let (masses, last) := filterAlong process event next word
      (mass :: masses, last)

namespace Planner

/-- The element of its domain at which a policy is asked once a joint history has come about. -/
def elementAfter (planner : Planner W) (history : List (Symbol .actionObservation)) :
    PolicyDomain → Except Fault Nat
  | .observationHistory =>
      planner.jointIndexOf ((Symbol.observations history).map Symbol.observation)
  | .actionObservationHistory => planner.jointIndexOf history
  | .type => .error (.meaningless .typeRealization)

/-- The weight of a joint action after a joint history: one if there is no policy. -/
def weightAfter (planner : Planner W) (policy? : Option (JointPolicy W))
    (history : List (Symbol .actionObservation)) (jointAction : Nat) : Except Fault W :=
  match policy? with
  | none => .ok Weight.one
  | some policy => do
      policy.probability (← planner.elementAfter history policy.domain) jointAction

def weightsAlong (planner : Planner W) (policy? : Option (JointPolicy W)) :
    (history word : List (Symbol .actionObservation)) → Except Fault (List W)
  | _, [] => .ok []
  | history, .actionObservation jointAction jointObservation :: word => do
      let weight ← planner.weightAfter policy? history jointAction
      let weights ← weightsAlong planner policy?
        (history ++ [.actionObservation jointAction jointObservation]) word
      return weight :: weights

/-- What becomes of a belief and of a probability along a word that comes after a joint history. -/
def continueFrom (planner : Planner W) (policy? : Option (JointPolicy W))
    (history word : List (Symbol .actionObservation)) (start : Belief W) (p : W) :
    Except Fault (Belief W × W) := do
  let (masses, last) :=
    start.filterAlong planner.process planner.settings.eventObservability word
  let weights ← planner.weightsAlong policy? history word
  return (last, (List.zipWith (· * ·) masses weights).foldl (· * ·) p)

/-- What a predecessor and a history with the given words call for: what is left of the longer word
is gone through, or there is nothing if the words do not begin alike. -/
def prefixRule (planner : Planner W) (policy? : Option (JointPolicy W))
    (former word : List (Symbol .actionObservation)) (start : Belief W) :
    Except Fault (Belief W × W) :=
  if former <+: word then
    planner.continueFrom policy? former (word.drop former.length) start Weight.one
  else .ok (planner.blankBelief none, Weight.zero)

/-- The domain of a policy is made of histories, and the policy has a weight for every joint action at
each of its joint elements. -/
structure Covers (planner : Planner W) (policy : JointPolicy W) : Prop where
  historical : policy.domain ≠ .type
  probability : ∀ elements jointActions, planner.jointDomainSize policy.domain = .ok elements →
    planner.process.jointActions = .ok jointActions →
      ∀ joint < elements, ∀ jointAction < jointActions,
        ∃ p, policy.probability joint jointAction = .ok p

theorem observations_concat (history : List (Symbol .actionObservation))
    (jointAction jointObservation : Nat) :
    Symbol.observations (history ++ [.actionObservation jointAction jointObservation]) =
      Symbol.observations history ++ [jointObservation] := by
  simp [Symbol.observations]

namespace Ready

variable {stages : Nat} {planner : Planner W} {workspace : Workspace W}
  (ready : planner.Ready stages workspace)
include ready

theorem choiceProbability_eq {current : Nat}
    (present : current < workspace.actionObservation.team.total)
    (policy? : Option (JointPolicy W)) (jointAction : Nat) :
    planner.choiceProbability policy?
        (Symbol.observations (workspace.actionObservation.team.word current)) current jointAction =
      planner.weightAfter policy? (workspace.actionObservation.team.word current) jointAction := by
  cases policy? with
  | none => rfl
  | some policy =>
      rw [choiceProbability, weightAfter, elementAfter.eq_def]
      cases policy.domain with
      | observationHistory => rfl
      | type => rfl
      | actionObservationHistory =>
          have found : planner.jointIndexOf (workspace.actionObservation.team.word current) =
              .ok current := by
            rw [jointIndexOf, bind_of_eq_ok (ready.space .actionObservation)]
            exact (ready.reads.indexOf _ _).mpr ⟨present, rfl⟩
          simp only [found]

theorem walk_eq_continueFrom (policy? : Option (JointPolicy W)) {index current : Nat}
    {later : List (Symbol .actionObservation)} (belief : Belief W) (p : W)
    (inside : index < workspace.actionObservation.team.total)
    (present : current < workspace.actionObservation.team.total)
    (split : workspace.actionObservation.team.word index =
      workspace.actionObservation.team.word current ++ later) :
    planner.walk policy? later
        (Symbol.observations (workspace.actionObservation.team.word current)) current belief p =
      planner.continueFrom policy? (workspace.actionObservation.team.word current) later belief
        p := by
  induction later generalizing current belief p with
  | nil => rfl
  | cons symbol later ih =>
      cases symbol with
      | actionObservation jointAction jointObservation =>
          obtain ⟨next, present', spelled⟩ := ready.exists_next inside split
          have rest := fun belief p => ih belief p present' (by rw [split, spelled]; simp)
          rw [spelled, observations_concat] at rest
          rw [ready.walk_cons present' spelled, ready.choiceProbability_eq present, continueFrom,
            weightsAlong]
          cases planner.weightAfter policy? (workspace.actionObservation.team.word current)
              jointAction with
          | error fault => rfl
          | ok weight =>
              rw [bind_of_eq_ok rfl, bind_of_eq_ok rfl, rest, continueFrom]
              cases planner.weightsAlong policy? (workspace.actionObservation.team.word current ++
                  [.actionObservation jointAction jointObservation]) later with
              | error fault => rfl
              | ok weights => rfl

theorem extendsHistory_eq {predecessor : Nat} (word : List (Symbol .actionObservation))
    (present : predecessor < workspace.actionObservation.team.total) :
    planner.extendsHistory word predecessor
        (workspace.actionObservation.team.word predecessor).length =
      .ok (decide (workspace.actionObservation.team.word predecessor <+: word ∧
        workspace.actionObservation.team.word predecessor ≠ word)) := by
  generalize former_eq : workspace.actionObservation.team.word predecessor = former
  rw [extendsHistory]
  by_cases short : word.length ≤ former.length
  · have never : ¬ (former <+: word ∧ former ≠ word) := fun given =>
      given.2 (given.1.eq_of_length_le short)
    rw [if_pos short, decide_eq_false never]
    rfl
  · have unequal : former ≠ word := fun same => short (same ▸ le_refl _)
    rw [if_neg short]
    refine (bind_of_eq_ok (ready.jointSymbols_eq_ok present) _).trans ?_
    rw [former_eq]
    refine congrArg Except.ok (Bool.eq_iff_iff.mpr ?_)
    rw [beq_iff_eq, decide_eq_true_iff, List.prefix_iff_eq_take, and_iff_left unequal]

theorem walkFrom_eq_prefixRule (policy? : Option (JointPolicy W)) {index predecessor : Nat}
    (start : Belief W) (inside : index < workspace.actionObservation.team.total)
    (present : predecessor < workspace.actionObservation.team.total)
    (begins : workspace.actionObservation.team.word predecessor <+:
      workspace.actionObservation.team.word index) :
    planner.walkFrom policy? predecessor
        (workspace.actionObservation.team.word predecessor).length
        (workspace.actionObservation.team.word index) start =
      planner.prefixRule policy? (workspace.actionObservation.team.word predecessor)
        (workspace.actionObservation.team.word index) start := by
  rw [prefixRule, if_pos begins]
  obtain ⟨later, split⟩ := begins
  rw [walkFrom, ← split, List.drop_left, List.take_left]
  exact ready.walk_eq_continueFrom policy? start Weight.one inside present split.symm

/-- The planner takes the empty history for a beginning of every history, and any other one for a
beginning of longer histories only. -/
theorem realize_some (policy? : Option (JointPolicy W)) {index predecessor : Nat}
    (start : Belief W) (inside : index < workspace.actionObservation.team.total)
    (present : predecessor < workspace.actionObservation.team.total) :
    planner.realize index predecessor (some start) policy? =
      if predecessor = 0 ∨ workspace.actionObservation.team.word predecessor <+:
          workspace.actionObservation.team.word index ∧
            workspace.actionObservation.team.word predecessor ≠
              workspace.actionObservation.team.word index then
        planner.walkFrom policy? predecessor
          (workspace.actionObservation.team.word predecessor).length
          (workspace.actionObservation.team.word index) start
      else .ok (planner.blankBelief none, Weight.zero) := by
  have checked : planner.realize index predecessor (some start) policy? =
      planner.realizeFrom index predecessor (some start) policy? := by
    simp [realize]
  rw [checked, realizeFrom, bind_of_eq_ok (ready.space .actionObservation), Workspace.space,
    bind_of_eq_ok (ready.stageOf_eq_ok inside), bind_of_eq_ok (ready.stageOf_eq_ok present),
    bind_of_eq_ok (ready.jointSymbols_eq_ok inside)]
  by_cases begun : predecessor = 0
  · simp only [begun, ne_eq, not_true_eq_false, true_or, ↓reduceIte]
  · simp only [begun, ne_eq, not_false_eq_true, false_or, ↓reduceIte]
    rw [bind_of_eq_ok (ready.extendsHistory_eq _ present)]
    by_cases extended : workspace.actionObservation.team.word predecessor <+:
        workspace.actionObservation.team.word index ∧
          workspace.actionObservation.team.word predecessor ≠
            workspace.actionObservation.team.word index
    · rw [if_pos extended, decide_eq_true extended]
      rfl
    · rw [if_neg extended, decide_eq_false extended]
      rfl

/-- With a belief to start from, a planner answers by the rule, but for a history that is its own
predecessor. -/
theorem realize_some_eq_prefixRule (policy? : Option (JointPolicy W)) {index predecessor : Nat}
    (start : Belief W) (inside : index < workspace.actionObservation.team.total)
    (present : predecessor < workspace.actionObservation.team.total) :
    planner.realize index predecessor (some start) policy? =
      if predecessor = index ∧ predecessor ≠ 0 then .ok (planner.blankBelief none, Weight.zero)
      else planner.prefixRule policy? (workspace.actionObservation.team.word predecessor)
        (workspace.actionObservation.team.word index) start := by
  have unequal : predecessor ≠ index → workspace.actionObservation.team.word predecessor ≠
      workspace.actionObservation.team.word index := fun apart equal =>
    apart (ready.reads.word_injective present inside equal)
  rw [ready.realize_some policy? start inside present]
  by_cases begins : workspace.actionObservation.team.word predecessor <+:
      workspace.actionObservation.team.word index
  · rw [ready.walkFrom_eq_prefixRule policy? start inside present begins]
    by_cases same : predecessor = index
    · subst same
      by_cases begun : predecessor = 0
      · rw [if_pos (.inl begun), if_neg fun drained => drained.2 begun]
      · rw [if_neg (by simp [begun]), if_pos ⟨rfl, begun⟩]
    · rw [if_pos (.inr ⟨begins, unequal same⟩), if_neg fun drained => same drained.1]
  · have begun : predecessor ≠ 0 := fun empty => begins (by simp [empty])
    have same : predecessor ≠ index := fun equal => begins (equal ▸ List.prefix_refl _)
    rw [if_neg (by simp [begun, begins]), if_neg fun drained => same drained.1, prefixRule,
      if_neg begins]

omit ready in
theorem prefixRule_self (policy? : Option (JointPolicy W))
    (word : List (Symbol .actionObservation)) (start : Belief W) :
    planner.prefixRule policy? word word start = .ok (start, Weight.one) := by
  rw [prefixRule, if_pos (List.prefix_refl word), List.drop_length]
  rfl

/-- A policy that covers its domain has a weight for every joint action after every joint history. -/
theorem exists_weightAfter {policy? : Option (JointPolicy W)}
    (covers : ∀ policy, policy? = some policy → planner.Covers policy) {current jointAction : Nat}
    (present : current < workspace.actionObservation.team.total)
    (known : jointAction < workspace.actionObservation.team.alphabet.actions) :
    ∃ weight, planner.weightAfter policy? (workspace.actionObservation.team.word current)
      jointAction = .ok weight := by
  cases policy? with
  | none => exact ⟨Weight.one, rfl⟩
  | some policy =>
      obtain ⟨historical, weights⟩ := covers policy rfl
      have counted : planner.process.jointActions =
          .ok workspace.actionObservation.team.alphabet.actions :=
        bind_of_eq_ok ready.intact.1 _
      rw [weightAfter]
      cases domain : policy.domain with
      | type => exact absurd domain historical
      | observationHistory =>
          obtain ⟨observed, present', found⟩ := ready.exists_observed present
          have sized : planner.jointDomainSize .observationHistory =
              .ok workspace.observation.team.total := bind_of_eq_ok (ready.space .observation) _
          rw [domain] at weights
          obtain ⟨weight, weighed⟩ := weights _ _ sized counted observed present' jointAction known
          exact ⟨weight, (bind_of_eq_ok found _).trans weighed⟩
      | actionObservationHistory =>
          have found : planner.jointIndexOf (workspace.actionObservation.team.word current) =
              .ok current := by
            rw [jointIndexOf, bind_of_eq_ok (ready.space .actionObservation)]
            exact (ready.reads.indexOf _ _).mpr ⟨present, rfl⟩
          have sized : planner.jointDomainSize .actionObservationHistory =
              .ok workspace.actionObservation.team.total :=
            bind_of_eq_ok (ready.space .actionObservation) _
          rw [domain] at weights
          obtain ⟨weight, weighed⟩ := weights _ _ sized counted current present jointAction known
          exact ⟨weight, (bind_of_eq_ok found _).trans weighed⟩

theorem exists_weightsAlong {policy? : Option (JointPolicy W)}
    (covers : ∀ policy, policy? = some policy → planner.Covers policy) {index current : Nat}
    {later : List (Symbol .actionObservation)}
    (inside : index < workspace.actionObservation.team.total)
    (present : current < workspace.actionObservation.team.total)
    (split : workspace.actionObservation.team.word index =
      workspace.actionObservation.team.word current ++ later) :
    ∃ weights, planner.weightsAlong policy? (workspace.actionObservation.team.word current) later =
      .ok weights := by
  induction later generalizing current with
  | nil => exact ⟨[], rfl⟩
  | cons symbol later ih =>
      cases symbol with
      | actionObservation jointAction jointObservation =>
          obtain ⟨next, present', spelled⟩ := ready.exists_next inside split
          have known : jointAction < workspace.actionObservation.team.alphabet.actions := by
            have within := (ready.reads.proper index inside).1
              (.actionObservation jointAction jointObservation) (by rw [split]; simp)
            rw [Symbol.within, Bool.and_eq_true] at within
            exact of_decide_eq_true within.1
          obtain ⟨weight, first⟩ := ready.exists_weightAfter covers present known
          obtain ⟨weights, rest⟩ := ih present' (by rw [split, spelled]; simp)
          rw [spelled] at rest
          exact ⟨weight :: weights, (bind_of_eq_ok first _).trans (bind_of_eq_ok rest _)⟩

theorem exists_prefixRule {policy? : Option (JointPolicy W)}
    (covers : ∀ policy, policy? = some policy → planner.Covers policy) {index predecessor : Nat}
    (start : Belief W) (inside : index < workspace.actionObservation.team.total)
    (present : predecessor < workspace.actionObservation.team.total) :
    ∃ answer, planner.prefixRule policy? (workspace.actionObservation.team.word predecessor)
      (workspace.actionObservation.team.word index) start = .ok answer := by
  rw [prefixRule]
  split
  · rename_i begins
    obtain ⟨later, split⟩ := begins
    obtain ⟨weights, weighed⟩ := ready.exists_weightsAlong covers inside present split.symm
    rw [← split, List.drop_left, continueFrom, weighed]
    exact ⟨_, rfl⟩
  · exact ⟨_, rfl⟩

end Ready

/-- From a belief that is given for a predecessor, the planner answers by the rule of prefixes, which
gives an answer wherever the policy covers its domain. There is one exception: by the rule a history
that is its own predecessor leaves the belief as it is and has probability one, but the planner drains
the belief and answers zero, unless the history is the empty one. -/
theorem realize_from_belief_iff {process : DecisionProcess W} {stages : Nat} {settings : Settings}
    {planner : Planner W} (distinct : (Weight.zero : W) ≠ Weight.one)
    (serves : Serves process stages settings planner) {index predecessor : Nat}
    {former word : List (Symbol .actionObservation)}
    (spelled : planner.jointSymbols .actionObservation index = .ok word)
    (spelled' : planner.jointSymbols .actionObservation predecessor = .ok former)
    (start : Belief W) (policy? : Option (JointPolicy W)) :
    planner.realize index predecessor (some start) policy? =
        (if predecessor = index ∧ predecessor ≠ 0 then .ok (planner.blankBelief none, Weight.zero)
        else planner.prefixRule policy? former word start) ∧
      (predecessor = index →
        planner.prefixRule policy? former word start = .ok (start, Weight.one)) ∧
        ((∀ policy, policy? = some policy → planner.Covers policy) →
          ∃ answer, planner.prefixRule policy? former word start = .ok answer ∧
            (planner.realize index predecessor (some start) policy? = .ok answer ↔
              (predecessor = index → predecessor = 0))) := by
  obtain ⟨_, _, workspace, ready⟩ := serves.ready
  obtain ⟨inside, rfl⟩ := ready.jointSymbols_eq_ok_iff.mp spelled
  obtain ⟨present, rfl⟩ := ready.jointSymbols_eq_ok_iff.mp spelled'
  have answered := ready.realize_some_eq_prefixRule policy? start inside present
  have self : predecessor = index → planner.prefixRule policy?
      (workspace.actionObservation.team.word predecessor)
        (workspace.actionObservation.team.word index) start = .ok (start, Weight.one) := by
    intro same
    subst same
    exact Ready.prefixRule_self policy? _ start
  refine ⟨answered, self, fun covers => ?_⟩
  obtain ⟨answer, ruled⟩ := ready.exists_prefixRule covers start inside present
  refine ⟨answer, ruled, ?_⟩
  rw [answered]
  by_cases drained : predecessor = index ∧ predecessor ≠ 0
  · obtain ⟨same, begun⟩ := drained
    rw [self same] at ruled
    cases ruled
    have unequal : (planner.blankBelief none, (Weight.zero : W)) ≠ (start, Weight.one) :=
      fun equal => distinct (congrArg Prod.snd equal)
    rw [if_pos ⟨same, begun⟩]
    exact iff_of_false (fun equal => unequal (Except.ok.inj equal)) fun given => begun (given same)
  · rw [if_neg drained]
    exact iff_of_true ruled fun same => not_not.mp fun begun => drained ⟨same, begun⟩

end Planner

def JointPolicy.even : JointPolicy Rat where
  domain := .observationHistory
  probability _ _ := .ok (1 / 2)

namespace Planner

/-- Two histories of which one begins with the other, and a policy with weights of one half: the
planner follows the rule, and the rule takes the only further step. -/
theorem realize_from_belief_iff_steady :
    ∃ planner : Planner Rat, Serves .steady 3 (Settings.nothing.keeping true false) planner ∧
      (Weight.zero : Rat) ≠ Weight.one ∧
        planner.jointSymbols .actionObservation 3 =
          .ok [.actionObservation 0 0, .actionObservation 0 0] ∧
          planner.jointSymbols .actionObservation 1 = .ok [.actionObservation 0 0] ∧
            planner.Covers .even ∧
              planner.realize 3 1 (some (.dense [1])) (some .even) = .ok (.dense [1], 1 / 2) := by
  obtain ⟨planner, made, answers⟩ := exists_steady false
  have spelled : planner.jointSymbols .actionObservation 3 =
      .ok [.actionObservation 0 0, .actionObservation 0 0] := by
    apply answers
    decide +kernel
  have spelled' : planner.jointSymbols .actionObservation 1 = .ok [.actionObservation 0 0] := by
    apply answers
    decide +kernel
  have ruled : planner.prefixRule (some .even) [.actionObservation 0 0]
      [.actionObservation 0 0, .actionObservation 0 0] (.dense [1]) =
        .ok (.dense [1], 1 / 2) := by
    apply answers
    decide +kernel
  have covers : planner.Covers .even :=
    ⟨by simp [JointPolicy.even], fun _ _ _ _ _ _ _ _ => ⟨1 / 2, rfl⟩⟩
  obtain ⟨answer, ruled', agrees⟩ := (realize_from_belief_iff (by decide +kernel) (.created made)
    spelled spelled' (.dense [1]) (some .even)).2.2 fun _ given => Option.some.inj given ▸ covers
  rw [ruled] at ruled'
  cases ruled'
  exact ⟨planner, .created made, by decide +kernel, spelled, spelled', covers,
    agrees.mpr (by decide)⟩

/-- A history of one step as its own predecessor: by the rule nothing happens to the belief, but the
planner drains it. -/
theorem own_predecessor_drains_belief :
    ∃ planner : Planner Rat, create .steady (.finite 3) (Settings.nothing.keeping true false) =
        .ok planner ∧
      planner.jointSymbols .actionObservation 1 = .ok [.actionObservation 0 0] ∧
        planner.prefixRule none [.actionObservation 0 0] [.actionObservation 0 0] (.dense [1]) =
          .ok (.dense [1], 1) ∧
          planner.realize 1 1 (some (.dense [1])) none = .ok (.dense [0], 0) := by
  obtain ⟨planner, made, answers⟩ := exists_steady false
  refine ⟨planner, made, ?_, ?_, ?_⟩
  · apply answers
    decide +kernel
  · exact Ready.prefixRule_self none _ _
  · apply answers
    decide +kernel

end Planner

end TeamPlanning
