import TeamPlanning.Proofs.History.Requests
import TeamPlanning.Proofs.Planner.Service

/-! # Queries

What can be asked of a planner about histories, beliefs and probabilities. Two planners for the same
inputs give the same answers to all of it, if their workspaces differ in the records that were made
on demand only. A planner without a workspace gives none. -/

set_option autoImplicit false

namespace TeamPlanning

variable {c : HistoryKind} {ν α : Type}

/-! ## Histories -/

/-- A question about the histories of one space. -/
inductive HistoryQuery (c : HistoryKind) : Type → Type where
  | count : HistoryQuery c Nat
  | countAt (stage : Nat) : HistoryQuery c Nat
  | firstAt (stage : Nat) : HistoryQuery c Nat
  | stageOf (index : Nat) : HistoryQuery c Nat
  | successor (index : Nat) (symbol : Symbol c) : HistoryQuery c Nat
  | symbols (index : Nat) : HistoryQuery c (List (Symbol c))
  | indexOf (word : List (Symbol c)) : HistoryQuery c Nat

def HistorySpace.answer (space : HistorySpace c ν) : HistoryQuery c α → Except Fault α
  | .count => .ok space.total
  | .countAt stage => space.layout.sizeAt stage
  | .firstAt stage => space.layout.startAt stage
  | .stageOf index => space.stageOf index
  | .successor index symbol => space.successor index symbol
  | .symbols index => space.symbols index
  | .indexOf word => space.indexOf word

/-- A question about the histories of a team: about an agent's own, about the joint ones, or about
the way between them. -/
inductive TeamQuery (c : HistoryKind) : Type → Type 1 where
  | own {α : Type} (agent : Nat) (query : HistoryQuery c α) : TeamQuery c α
  | joint {α : Type} (query : HistoryQuery c α) : TeamQuery c α
  | toIndividual (index : Nat) : TeamQuery c (List Nat)
  | toJoint (stage : Nat) (individual : List Nat) : TeamQuery c Nat

namespace TeamSpace

def answer (space : TeamSpace c) : TeamQuery c α → Except Fault α
  | .own agent query => do (← space.agent agent).answer query
  | .joint query => space.team.answer query
  | .toIndividual index => space.toIndividual index
  | .toJoint stage individual => space.toJoint stage individual

namespace Continues

variable {space start : TeamSpace c} (continues : space.Continues start)
include continues

/-- More records change no answer. -/
theorem answer (query : TeamQuery c α) : space.answer query = start.answer query := by
  cases query with
  | own agent query =>
      rw [TeamSpace.answer, TeamSpace.answer, TeamSpace.agent, TeamSpace.agent, continues.agents]
  | toIndividual index => rw [TeamSpace.answer, TeamSpace.answer, continues.toIndividual]
  | toJoint stage individual =>
      rw [TeamSpace.answer, TeamSpace.answer, toJoint, toJoint, continues.agents,
        continues.alphabets, continues.indexOf]
  | joint query =>
      rw [TeamSpace.answer, TeamSpace.answer]
      cases query with
      | count => rw [HistorySpace.answer, HistorySpace.answer, continues.total]
      | countAt stage => rw [HistorySpace.answer, HistorySpace.answer, continues.layout]
      | firstAt stage => rw [HistorySpace.answer, HistorySpace.answer, continues.layout]
      | stageOf index => rw [HistorySpace.answer, HistorySpace.answer, continues.stageOf]
      | successor index symbol =>
          rw [HistorySpace.answer, HistorySpace.answer, continues.successor]
      | symbols index => rw [HistorySpace.answer, HistorySpace.answer, continues.symbols]
      | indexOf word => rw [HistorySpace.answer, HistorySpace.answer, continues.indexOf]

theorem count (agent : Nat) : space.count agent = start.count agent :=
  continues.answer (.own agent .count)

theorem firstAt (agent stage : Nat) : space.firstAt agent stage = start.firstAt agent stage :=
  continues.answer (.own agent (.firstAt stage))

end Continues

end TeamSpace

/-! ## Planners -/

/-- A question to a planner: about the histories of a kind, how they come apart, how many there are
for policies to range over, or about beliefs and realization probabilities. -/
inductive Query (W : Type) : Type → Type 1 where
  | history {α : Type} (c : HistoryKind) (query : TeamQuery c α) : Query W α
  | decompose (agent index : Nat) : Query W (Nat × Nat)
  | observationsByStage (index : Nat) : Query W (List (List Nat))
  | sequencesByAgent (index : Nat) : Query W (List (List Nat × List Nat))
  | domainSize (agent : Nat) (domain : PolicyDomain) (depth? : Option Nat) : Query W Nat
  | individualElements (joint : Nat) (domain : PolicyDomain) : Query W (List Nat)
  | policyCount (agent : Nat) : Query W Nat
  | jointPolicyCount : Query W Nat
  | jointBelief (index : Nat) : Query W (Belief W)
  | realize (index predecessor : Nat) (start? : Option (Belief W))
      (policy? : Option (JointPolicy W)) : Query W (Belief W × W)
  | probability (index predecessor : Nat) (start? : Option (Belief W))
      (policy? : Option (JointPolicy W)) : Query W W
  | lastProbability (index : Nat) : Query W W

/-- The query cannot be answered without a workspace. The joint policies of a team without agents
can: there is one. -/
def Query.NeedsWorkspace {W : Type} (process : DecisionProcess W) : Query W α → Prop
  | .jointPolicyCount => 0 < process.agents
  | _ => True

/-- The workspace has the histories of the one at the start, with more records of joint
action-observation histories. -/
structure Workspace.Continues {W : Type} (workspace start : Workspace W) : Prop where
  observation : workspace.observation = start.observation
  action : workspace.action = start.action
  actionObservation : workspace.actionObservation.Continues start.actionObservation
  realizations? : workspace.realizations? = start.realizations?

theorem Workspace.Continues.refl {W : Type} (workspace : Workspace W) :
    workspace.Continues workspace := ⟨rfl, rfl, .refl _, rfl⟩

theorem Workspace.Continues.space {W : Type} {workspace start : Workspace W}
    (continues : workspace.Continues start) (c : HistoryKind) :
    (workspace.space c).Continues (start.space c) := by
  cases c with
  | observation =>
      rw [Workspace.space, Workspace.space, continues.observation]
      exact .refl _
  | action =>
      rw [Workspace.space, Workspace.space, continues.action]
      exact .refl _
  | actionObservation => exact continues.actionObservation

namespace Planner

variable {W : Type} {planner start : Planner W}

/-- The numbers noted in the record of a joint history, where it is held. -/
def notedIndividual (planner : Planner W) (c : HistoryKind) (index : Nat) :
    Except Fault (List Nat) := do
  (← planner.space c).notedIndividual index

/-- The planner has the inputs of the one at the start, and a workspace that continues its own. -/
structure Continues (planner start : Planner W) : Prop where
  process : planner.process = start.process
  horizon : planner.horizon = start.horizon
  settings : planner.settings = start.settings
  workspace? : Option.Rel Workspace.Continues planner.workspace? start.workspace?

namespace Continues

variable (continues : planner.Continues start)
include continues

theorem workspaces : planner.workspace? = none ∧ start.workspace? = none ∨
    ∃ workspace workspace', planner.workspace? = some workspace ∧
      start.workspace? = some workspace' ∧ workspace.Continues workspace' := by
  have related := continues.workspace?
  generalize planner.workspace? = latter, start.workspace? = former at related ⊢
  cases related with
  | none => exact .inl ⟨rfl, rfl⟩
  | some related => exact .inr ⟨_, _, rfl, rfl, related⟩

/-- What depends on the answers of a space only does not tell the planners apart. -/
theorem space_bind {next next' : TeamSpace c → Except Fault α}
    (same : ∀ space space' : TeamSpace c, space.Continues space' → next space = next' space') :
    planner.space c >>= next = start.space c >>= next' := by
  rw [space, workspace, space, workspace, continues.horizon]
  rcases continues.workspaces with ⟨built, built'⟩ | ⟨_, _, built, built', related⟩
  · rw [built, built']
    rfl
  · rw [built, built']
    exact same _ _ (related.space c)

theorem history (query : TeamQuery c α) :
    (planner.space c >>= fun space => space.answer query) =
      start.space c >>= fun space => space.answer query :=
  continues.space_bind fun _ _ related => related.answer query

theorem symbols (c : HistoryKind) (agent index : Nat) :
    planner.symbols c agent index = start.symbols c agent index :=
  continues.history (c := c) (.own agent (.symbols index))

theorem jointSymbols (c : HistoryKind) (index : Nat) :
    planner.jointSymbols c index = start.jointSymbols c index :=
  continues.history (c := c) (.joint (.symbols index))

theorem indexOf (agent : Nat) (word : List (Symbol c)) :
    planner.indexOf agent word = start.indexOf agent word :=
  continues.history (.own agent (.indexOf word))

theorem jointIndexOf (word : List (Symbol c)) :
    planner.jointIndexOf word = start.jointIndexOf word :=
  continues.history (.joint (.indexOf word))

theorem individualElements (joint : Nat) (domain : PolicyDomain) :
    planner.individualElements joint domain = start.individualElements joint domain := by
  cases domain with
  | observationHistory => exact continues.history (c := .observation) (.toIndividual joint)
  | actionObservationHistory =>
      exact continues.history (c := .actionObservation) (.toIndividual joint)
  | type => rfl

theorem domainSize (agent : Nat) (domain : PolicyDomain) (depth? : Option Nat) :
    planner.domainSize agent domain depth? = start.domainSize agent domain depth? := by
  rw [Planner.domainSize, Planner.domainSize, stages, stages, continues.horizon]
  refine congrArg _ (funext fun horizon => ?_)
  cases domain with
  | observationHistory =>
      exact continues.space_bind fun _ _ related => by simp only [related.count, related.firstAt]
  | actionObservationHistory =>
      exact continues.space_bind fun _ _ related => by simp only [related.count, related.firstAt]
  | type => rfl

theorem policyCount (agent : Nat) : planner.policyCount agent = start.policyCount agent := by
  rw [Planner.policyCount, Planner.policyCount, continues.process]
  exact continues.space_bind fun _ _ related => by rw [related.count]

theorem realizations? : planner.realizations? = start.realizations? := by
  rw [Planner.realizations?, Planner.realizations?]
  rcases continues.workspaces with ⟨built, built'⟩ | ⟨_, _, built, built', related⟩
  · rw [built, built']
  · rw [built, built']
    exact related.realizations?

theorem cachedRealization (index : Nat) :
    planner.cachedRealization index = start.cachedRealization index := by
  rw [Planner.cachedRealization, Planner.cachedRealization, continues.realizations?]

/-- A note is missing from neither record; or only at the start, and is then what would have been
worked out there. -/
theorem notedIndividual (c : HistoryKind) (index : Nat) :
    planner.notedIndividual c index = start.notedIndividual c index ∨
      start.notedIndividual c index = .error (.notHeld c index) ∧
        planner.notedIndividual c index =
          start.space c >>= fun space => space.toIndividual index := by
  simp only [Planner.notedIndividual, space, workspace, continues.horizon]
  rcases continues.workspaces with ⟨built, built'⟩ | ⟨_, _, built, built', related⟩
  · rw [built, built']
    exact .inl rfl
  · rw [built, built']
    exact (related.space c).noted index

end Continues

section Absent

variable (absent : planner.workspace? = none)
include absent

theorem space_of_absent (c : HistoryKind) :
    planner.space c = .error (.meaningless (.noWorkspace planner.horizon)) := by
  rw [space, workspace, absent]
  rfl

theorem realizations?_of_absent : planner.realizations? = none := by
  rw [realizations?, absent]
  rfl

theorem cachedRealization_of_absent (index : Nat) : planner.cachedRealization index = .ok none := by
  rw [cachedRealization, realizations?_of_absent absent]

theorem policyCount_of_absent (agent : Nat) :
    planner.policyCount agent = .error (.meaningless (.noWorkspace planner.horizon)) := by
  rw [policyCount, space_of_absent absent]
  rfl

/-- The first agent's policies cannot be counted, so neither can the joint ones. -/
theorem jointPolicyCount_of_absent (inhabited : 0 < planner.process.agents) :
    planner.jointPolicyCount = .error (.meaningless (.noWorkspace planner.horizon)) := by
  obtain ⟨agents, same⟩ := Nat.exists_eq_add_of_lt inhabited
  rw [jointPolicyCount, same, Nat.zero_add, List.range_succ_eq_map, List.foldlM_cons,
    policyCount_of_absent absent]
  rfl

theorem domainSize_of_absent (agent : Nat) (domain : PolicyDomain) (depth? : Option Nat) :
    ∃ cause, planner.domainSize agent domain depth? = .error (.meaningless cause) := by
  rw [domainSize, stages]
  cases planner.horizon with
  | infinite => exact ⟨_, rfl⟩
  | finite horizon =>
      cases domain with
      | observationHistory => exact ⟨_, bind_of_eq_error (space_of_absent absent .observation) _⟩
      | actionObservationHistory =>
          exact ⟨_, bind_of_eq_error (space_of_absent absent .actionObservation) _⟩
      | type => exact ⟨_, rfl⟩

end Absent

variable [Weight W]

def answer (planner : Planner W) : Query W α → Except Fault α
  | .history c query => do (← planner.space c).answer query
  | .decompose agent index => planner.decompose agent index
  | .observationsByStage index => planner.observationsByStage index
  | .sequencesByAgent index => planner.sequencesByAgent index
  | .domainSize agent domain depth? => planner.domainSize agent domain depth?
  | .individualElements joint domain => planner.individualElements joint domain
  | .policyCount agent => planner.policyCount agent
  | .jointPolicyCount => planner.jointPolicyCount
  | .jointBelief index => planner.jointBelief index
  | .realize index predecessor start? policy? => planner.realize index predecessor start? policy?
  | .probability index predecessor start? policy? =>
      planner.probability index predecessor start? policy?
  | .lastProbability index => planner.lastProbability index

namespace Continues

variable (continues : planner.Continues start)
include continues

theorem blankBelief (size? : Option Nat) : planner.blankBelief size? = start.blankBelief size? := by
  rw [Planner.blankBelief, Planner.blankBelief, continues.process, continues.settings]

theorem replay : planner.replay = start.replay := by
  funext belief word
  rw [Planner.replay, Planner.replay, continues.process, continues.settings]

theorem choiceProbability (policy? : Option (JointPolicy W)) (seen : List Nat)
    (current jointAction : Nat) : planner.choiceProbability policy? seen current jointAction =
      start.choiceProbability policy? seen current jointAction := by
  simp only [Planner.choiceProbability, continues.jointIndexOf]

/-- Step by step along the history, a belief is filtered and weighted in the same way. -/
theorem walk (policy? : Option (JointPolicy W)) (word : List (Symbol .actionObservation))
    (seen : List Nat) (current : Nat) (belief : Belief W) (p : W) :
    planner.walk policy? word seen current belief p =
      start.walk policy? word seen current belief p := by
  induction word generalizing seen current belief p with
  | nil => rfl
  | cons symbol word ih =>
      cases symbol with
      | actionObservation jointAction jointObservation =>
          simp only [Planner.walk, continues.process, continues.settings,
            continues.choiceProbability]
          refine congrArg _ (funext fun choice => ?_)
          refine continues.space_bind fun space space' related => ?_
          rw [related.successor]
          exact congrArg _ (funext fun next => ih _ _ _ _)

theorem walkFrom (policy? : Option (JointPolicy W)) (predecessor length : Nat)
    (word : List (Symbol .actionObservation)) (belief : Belief W) :
    planner.walkFrom policy? predecessor length word belief =
      start.walkFrom policy? predecessor length word belief :=
  continues.walk ..

theorem realizeAfter (index predecessor length : Nat) (word : List (Symbol .actionObservation))
    (policy? : Option (JointPolicy W)) : planner.realizeAfter index predecessor length word policy? =
      start.realizeAfter index predecessor length word policy? := by
  simp only [Planner.realizeAfter, continues.cachedRealization, continues.realizations?,
    continues.walkFrom, continues.blankBelief, continues.process, continues.replay]

theorem realizeFrom (index predecessor : Nat) (start? : Option (Belief W))
    (policy? : Option (JointPolicy W)) : planner.realizeFrom index predecessor start? policy? =
      start.realizeFrom index predecessor start? policy? := by
  rw [Planner.realizeFrom, Planner.realizeFrom]
  refine continues.space_bind fun space space' related => ?_
  simp only [related.stageOf, continues.jointSymbols, extendsHistory, continues.walkFrom,
    continues.blankBelief, continues.process, continues.realizeAfter]

theorem realize (index predecessor : Nat) (start? : Option (Belief W))
    (policy? : Option (JointPolicy W)) : planner.realize index predecessor start? policy? =
      start.realize index predecessor start? policy? := by
  simp only [Planner.realize, continues.cachedRealization, continues.realizeFrom]

/-- Planners that differ only in the records made on demand cannot be told apart by their answers. -/
theorem answer (query : Query W α) : planner.answer query = start.answer query := by
  cases query with
  | history c query => exact continues.history query
  | decompose agent index =>
      simp only [Planner.answer, Planner.decompose, continues.symbols, continues.indexOf]
  | observationsByStage index =>
      simp only [Planner.answer, Planner.observationsByStage, continues.jointSymbols,
        continues.process]
  | sequencesByAgent index =>
      simp only [Planner.answer, Planner.sequencesByAgent, continues.jointSymbols,
        continues.process]
  | domainSize agent domain depth? => exact continues.domainSize ..
  | individualElements joint domain => exact continues.individualElements ..
  | policyCount agent => exact continues.policyCount agent
  | jointPolicyCount =>
      simp only [Planner.answer, Planner.jointPolicyCount, continues.policyCount, continues.process]
  | jointBelief index =>
      simp only [Planner.answer, Planner.jointBelief, continues.cachedRealization,
        continues.realize]
  | realize index predecessor start? policy? => exact continues.realize ..
  | probability index predecessor start? policy? =>
      simp only [Planner.answer, Planner.probability, continues.realize]
  | lastProbability index =>
      simp only [Planner.answer, Planner.lastProbability, continues.realizations?,
        continues.jointSymbols, continues.jointIndexOf, Planner.probability, continues.realize]

end Continues

section Absent

variable (absent : planner.workspace? = none)
include absent

theorem realize_of_absent (index predecessor : Nat) (start? : Option (Belief W))
    (policy? : Option (JointPolicy W)) : planner.realize index predecessor start? policy? =
      .error (.meaningless (.noWorkspace planner.horizon)) := by
  have worked_out : ∀ predecessor start? policy?,
      planner.realizeFrom index predecessor start? policy? =
        .error (.meaningless (.noWorkspace planner.horizon)) :=
    fun _ _ _ => bind_of_eq_error (space_of_absent absent _) _
  rw [realize]
  split
  · rw [bind_of_eq_ok (cachedRealization_of_absent absent index)]
    exact worked_out 0 none none
  · exact worked_out predecessor start? policy?

/-- A planner without a workspace says that the query means nothing in its configuration. -/
theorem answer_of_absent {query : Query W α} (needed : query.NeedsWorkspace planner.process) :
    ∃ cause, planner.answer query = .error (.meaningless cause) := by
  have spaced := space_of_absent absent
  cases query with
  | history c query => exact ⟨_, bind_of_eq_error (spaced c) _⟩
  | decompose agent index =>
      exact ⟨_, bind_of_eq_error (bind_of_eq_error (spaced .actionObservation) _) _⟩
  | observationsByStage index =>
      exact ⟨_, bind_of_eq_error (bind_of_eq_error (spaced .observation) _) _⟩
  | sequencesByAgent index =>
      exact ⟨_, bind_of_eq_error (bind_of_eq_error (spaced .actionObservation) _) _⟩
  | domainSize agent domain depth? => exact domainSize_of_absent absent ..
  | individualElements joint domain =>
      cases domain with
      | observationHistory => exact ⟨_, bind_of_eq_error (spaced .observation) _⟩
      | actionObservationHistory => exact ⟨_, bind_of_eq_error (spaced .actionObservation) _⟩
      | type => exact ⟨_, rfl⟩
  | policyCount agent => exact ⟨_, policyCount_of_absent absent agent⟩
  | jointPolicyCount => exact ⟨_, jointPolicyCount_of_absent absent needed⟩
  | jointBelief index =>
      refine ⟨.noWorkspace planner.horizon, ?_⟩
      rw [answer, jointBelief, bind_of_eq_ok (cachedRealization_of_absent absent index)]
      exact bind_of_eq_error (realize_of_absent absent ..) _
  | realize index predecessor start? policy? => exact ⟨_, realize_of_absent absent ..⟩
  | probability index predecessor start? policy? =>
      exact ⟨_, bind_of_eq_error (realize_of_absent absent ..) _⟩
  | lastProbability index =>
      refine ⟨.noWorkspace planner.horizon, ?_⟩
      rw [answer, lastProbability, realizations?_of_absent absent]
      exact bind_of_eq_error (bind_of_eq_error (spaced .actionObservation) _) _

end Absent

end Planner

end TeamPlanning
