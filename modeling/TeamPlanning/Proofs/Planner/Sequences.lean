import TeamPlanning.Proofs.History.Sequences
import TeamPlanning.Proofs.Planner.Decomposition
import TeamPlanning.Proofs.Planner.JointPolicies

/-! # What each agent did and saw

A planner tells what an agent did and saw in a joint history in two ways: it splits the joint symbols
stage by stage, with the numbers of actions and observations that the process names; or it converts the
joint history to the agents' own and reads the agent's. Both answer the same for every joint history
and every agent. -/

set_option autoImplicit false

namespace TeamPlanning.Planner

variable {W : Type} [Weight W] {process : DecisionProcess W} {stages : Nat} {settings : Settings}
  {planner : Planner W} {index : Nat}

/-- What the planner answers about the histories of a kind. -/
def ask (planner : Planner W) (c : HistoryKind) {α : Type} (query : TeamQuery c α) :
    Except Fault α :=
  planner.answer (.history c query)

/-- The actions and the observations of an agent's own action-observation history. -/
def ownSequences (planner : Planner W) (agent index : Nat) : Except Fault (List Nat × List Nat) := do
  let symbols ← planner.symbols .actionObservation agent index
  return (Symbol.actions symbols, Symbol.observations symbols)

/-- The observations of an agent's own observation history. -/
def ownObservations (planner : Planner W) (agent index : Nat) : Except Fault (List Nat) := do
  return Symbol.observations (← planner.symbols .observation agent index)

/-- A joint action-observation history split into one pair of sequences for every agent: those of the
agent's own history in it. -/
structure SplitsByAgent (planner : Planner W) (index : Nat) (sequences : List (List Nat × List Nat))
    (individual : List Nat) : Prop where
  split : planner.sequencesByAgent index = .ok sequences
  converted : planner.ask .actionObservation (.toIndividual index) = .ok individual
  matched : sequences.length = planner.process.agents ∧ individual.length = planner.process.agents
  own : ∀ (agent : Nat) sequence number, sequences[agent]? = some sequence →
    individual[agent]? = some number → planner.ownSequences agent number = .ok sequence

/-- A joint observation history split into one row of observations for every stage: an agent's column
is the agent's own history in it. -/
structure SplitsByStage (planner : Planner W) (index : Nat) (rows : List (List Nat))
    (individual : List Nat) : Prop where
  split : planner.observationsByStage index = .ok rows
  converted : planner.ask .observation (.toIndividual index) = .ok individual
  staged : planner.ask .observation (.joint (.stageOf index)) = .ok rows.length
  matched : (∀ row ∈ rows, row.length = planner.process.agents) ∧
    individual.length = planner.process.agents
  own : ∀ (agent number : Nat), individual[agent]? = some number →
    ∃ observations, planner.ownObservations agent number = .ok observations ∧
      observations.length = rows.length ∧
        ∀ t : Nat, (rows[t]?.bind (·[agent]?)) = observations[t]?

/-- The planner keeps the histories of a kind in the spaces of a team. -/
structure Keeps (planner : Planner W) {c : HistoryKind} (space : TeamSpace c) (stages : Nat) :
    Prop where
  kept : planner.space c = .ok space
  splits : space.Splits planner.process.alphabets stages
  parted : ∀ index, index < space.team.total →
    ∃ rows individual, space.Parted planner.process.alphabets index rows individual

theorem Serves.exists_keeps (serves : Serves process stages settings planner) (c : HistoryKind) :
    ∃ space : TeamSpace c, planner.Keeps space stages := by
  obtain ⟨rfl, _, _⟩ := serves.ready
  obtain ⟨workspace, built, _, planned, teams⟩ := serves.exists_teams
  obtain ⟨start, requests, created, same⟩ := teams c
  refine ⟨workspace.space c, ?_, ?_, ?_⟩
  · rw [Planner.space, Planner.workspace, built]
    rfl
  · rw [same]
    exact TeamSpace.splits_of_create planned created requests
  · rw [same]
    exact fun index => TeamSpace.exists_parted planned created requests

namespace Keeps

variable {c : HistoryKind} {space : TeamSpace c} (keeps : planner.Keeps space stages)
include keeps

theorem ask {α : Type} (query : TeamQuery c α) :
    planner.ask c query = space.answer query :=
  bind_of_eq_ok keeps.kept _

omit [Weight W] in
theorem jointSymbols (inside : index < space.team.total) :
    planner.jointSymbols c index = .ok (space.team.word index) :=
  (bind_of_eq_ok keeps.kept _).trans
    (keeps.splits.team.symbols_eq_ok_iff.mpr ⟨inside, rfl⟩)

omit [Weight W] in
theorem missing_jointSymbols (beyond : space.team.total ≤ index) :
    ∃ cause, planner.jointSymbols c index = .error (.missing cause) := by
  have answers := keeps.splits.team.symbols index
  rw [if_neg (Nat.not_lt_of_le beyond)] at answers
  obtain ⟨cause, failed⟩ := answers
  exact ⟨cause, (bind_of_eq_ok keeps.kept _).trans failed⟩

omit [Weight W] in
/-- An agent's own history in a joint one spells the agent's column. -/
theorem symbols {rows : List (List (Symbol c))} {individual : List Nat} {agent number : Nat}
    (parted : space.Parted planner.process.alphabets index rows individual)
    (held : individual[agent]? = some number) :
    planner.symbols c agent number = .ok (column rows agent) := by
  have seat := (List.getElem?_eq_some_iff.mp held).1
  rw [parted.matched] at seat
  have present := List.getElem?_eq_getElem seat
  obtain ⟨inside, spelled⟩ := parted.own agent _ number present held
  have reads := (forall₂_iff_getElem?.mp keeps.splits.agents.flip).2 agent _ _
    (List.getElem?_eq_getElem (keeps.splits.agents.length_eq ▸ seat)) present
  refine (bind_of_eq_ok keeps.kept _).trans ?_
  rw [TeamSpace.agent, present]
  exact reads.2.symbols_eq_ok_iff.mpr ⟨inside, spelled⟩

end Keeps

variable (coherent : planner.process.Coherent)
include coherent

omit [Weight W] in
theorem length_alphabets : planner.process.alphabets.length = planner.process.agents := by
  rw [coherent, List.length_map, List.length_range]

omit [Weight W] in
theorem map_alphabets : planner.process.alphabets.map (·.actions) = planner.process.actionSizes ∧
    planner.process.alphabets.map (·.observations) = planner.process.observationSizes := by
  rw [coherent, List.map_map, List.map_map]
  exact ⟨rfl, rfl⟩

omit [Weight W] in
/-- Splitting every joint action and observation apart splits the symbols. -/
theorem mapM_pairs {word : List (Symbol .actionObservation)}
    {rows : List (List (Symbol .actionObservation))}
    (split : word.mapM (·.parts planner.process.alphabets) = .ok rows)
    {visit : Symbol .actionObservation → Except Fault (List Nat × List Nat)}
    (pairs : ∀ jointAction jointObservation actions observations,
      planner.process.individualActions jointAction = .ok actions →
      planner.process.individualObservations jointObservation = .ok observations →
        visit (.actionObservation jointAction jointObservation) = .ok (actions, observations)) :
    word.mapM visit = .ok (rows.map fun row => (Symbol.actions row, Symbol.observations row)) := by
  obtain ⟨sizes, sizes'⟩ := map_alphabets coherent
  rw [mapM_eq_ok_iff, List.forall₂_map_right_iff]
  refine (mapM_eq_ok_iff.mp split).imp fun symbol row parted => ?_
  cases symbol with
  | actionObservation jointAction jointObservation =>
      rw [Symbol.parts_actionObservation_eq_ok_iff, sizes, sizes'] at parted
      exact pairs _ _ _ _ parted.1 parted.2

omit [Weight W] in
theorem sequencesByAgent_eq {word : List (Symbol .actionObservation)}
    {rows : List (List (Symbol .actionObservation))}
    (read : planner.jointSymbols .actionObservation index = .ok word)
    (split : word.mapM (·.parts planner.process.alphabets) = .ok rows) :
    planner.sequencesByAgent index = .ok ((List.range planner.process.agents).map fun agent =>
      (Symbol.actions (column rows agent), Symbol.observations (column rows agent))) := by
  refine (bind_of_eq_ok read _).trans ((bind_of_eq_ok (mapM_pairs coherent split ?_) _).trans ?_)
  · intro jointAction jointObservation actions observations acted observed
    exact (bind_of_eq_ok acted _).trans (bind_of_eq_ok observed _)
  refine congrArg Except.ok (List.map_congr_left fun agent _ => ?_)
  have acted : column (rows.map Symbol.actions) agent = Symbol.actions (column rows agent) :=
    column_map _ rows agent
  have observed :
      column (rows.map Symbol.observations) agent = Symbol.observations (column rows agent) :=
    column_map _ rows agent
  rw [List.filterMap_map, List.filterMap_map]
  rw [column, List.filterMap_map] at acted observed
  exact Prod.ext acted observed

omit [Weight W] in
theorem observationsByStage_eq {word : List (Symbol .observation)}
    {rows : List (List (Symbol .observation))}
    (read : planner.jointSymbols .observation index = .ok word)
    (split : word.mapM (·.parts planner.process.alphabets) = .ok rows) :
    planner.observationsByStage index = .ok (rows.map Symbol.observations) := by
  obtain ⟨_, sizes⟩ := map_alphabets coherent
  refine (bind_of_eq_ok read _).trans ?_
  rw [Symbol.observations, mapM_eq_ok_iff, List.forall₂_map_left_iff, List.forall₂_map_right_iff]
  refine (mapM_eq_ok_iff.mp split).imp fun symbol row parted => ?_
  cases symbol with
  | observation jointObservation =>
      rw [Symbol.parts_observation_eq_ok_iff, sizes] at parted
      exact parted

theorem Keeps.splitsByAgent {space : TeamSpace .actionObservation}
    (keeps : planner.Keeps space stages) (inside : index < space.team.total) :
    ∃ sequences individual, planner.SplitsByAgent index sequences individual := by
  obtain ⟨rows, individual, parted⟩ := keeps.parted index inside
  have agents := keeps.splits.agents.length_eq.trans (length_alphabets coherent)
  refine ⟨_, individual, sequencesByAgent_eq coherent (keeps.jointSymbols inside) parted.split,
    (keeps.ask _).trans parted.converted, ?_, ?_⟩
  · rw [List.length_map, List.length_range, parted.matched, agents]
    exact ⟨rfl, rfl⟩
  · intro agent sequence number listed held
    rw [List.getElem?_map, Option.map_eq_some_iff] at listed
    obtain ⟨_, ranged, rfl⟩ := listed
    obtain ⟨_, rfl⟩ := List.getElem?_eq_some_iff.mp ranged
    rw [List.getElem_range]
    exact bind_of_eq_ok (keeps.symbols parted held) _

theorem Keeps.splitsByStage {space : TeamSpace .observation}
    (keeps : planner.Keeps space stages) (inside : index < space.team.total) :
    ∃ rows individual, planner.SplitsByStage index rows individual := by
  obtain ⟨rows, individual, parted⟩ := keeps.parted index inside
  have alphabets := length_alphabets coherent
  have agents := keeps.splits.agents.length_eq.trans alphabets
  have wide := parted.wide
  rw [alphabets] at wide
  refine ⟨rows.map Symbol.observations, individual,
    observationsByStage_eq coherent (keeps.jointSymbols inside) parted.split,
    (keeps.ask _).trans parted.converted, ?_, ⟨?_, parted.matched.trans agents⟩, ?_⟩
  · rw [keeps.ask, List.length_map, parted.length_rows]
    exact keeps.splits.team.stageOf_eq_ok_iff.mpr ⟨inside, rfl⟩
  · intro row member
    obtain ⟨symbols, listed, rfl⟩ := List.mem_map.mp member
    rw [Symbol.length_observations_observation, wide symbols listed]
  · intro agent number held
    have seat := (List.getElem?_eq_some_iff.mp held).1
    rw [parted.matched, agents] at seat
    have reaching : ∀ row ∈ rows, agent < row.length := fun row member => by rwa [wide row member]
    refine ⟨_, bind_of_eq_ok (keeps.symbols parted held) _, ?_, fun t => ?_⟩
    · rw [Symbol.length_observations_observation, length_column reaching, List.length_map]
    · rw [Symbol.observations, List.getElem?_map, List.getElem?_map, getElem?_column reaching]
      cases rows[t]? with
      | none => rfl
      | some row => exact List.getElem?_map

omit coherent

/-- For every joint history, in whichever modes the histories are kept and whichever records were made
since, the sequences that come of splitting its symbols are those of the agents' own histories in it;
no other number is split or converted. -/
theorem sequences_agree (serves : Serves process stages settings planner)
    (coherent : process.Coherent) :
    (∃ count, planner.ask .actionObservation (.joint .count) = .ok count ∧ ∀ index,
      (index < count → ∃ sequences individual,
        planner.SplitsByAgent index sequences individual) ∧
      (count ≤ index → (∃ cause, planner.sequencesByAgent index = .error (.missing cause)) ∧
        ∃ cause, planner.ask .actionObservation (.toIndividual index) =
          .error (.missing cause))) ∧
    ∃ count, planner.ask .observation (.joint .count) = .ok count ∧ ∀ index,
      (index < count → ∃ rows individual, planner.SplitsByStage index rows individual) ∧
      (count ≤ index → (∃ cause, planner.observationsByStage index = .error (.missing cause)) ∧
        ∃ cause, planner.ask .observation (.toIndividual index) = .error (.missing cause)) := by
  obtain ⟨rfl, _, _⟩ := serves.ready
  obtain ⟨pairs, keeps⟩ := serves.exists_keeps .actionObservation
  obtain ⟨observations, keeps'⟩ := serves.exists_keeps .observation
  refine ⟨⟨pairs.team.total, keeps.ask _, fun index => ⟨keeps.splitsByAgent coherent, ?_⟩⟩,
    observations.team.total, keeps'.ask _, fun index => ⟨keeps'.splitsByStage coherent, ?_⟩⟩
  · intro beyond
    obtain ⟨cause, failed⟩ := keeps.missing_jointSymbols beyond
    refine ⟨⟨cause, bind_of_eq_error failed _⟩, ?_⟩
    rw [keeps.ask]
    exact keeps.splits.beyond index beyond
  · intro beyond
    obtain ⟨cause, failed⟩ := keeps'.missing_jointSymbols beyond
    refine ⟨⟨cause, bind_of_eq_error failed _⟩, ?_⟩
    rw [keeps'.ask]
    exact keeps'.splits.beyond index beyond

/-- Two agents over three stages, after the record of joint history 100 was made on demand: the first
one took action 1 and then 0 and saw 0 and then 1, the second one took action 0 twice and saw 1 and
then 0. -/
theorem sequences_agree_mixed :
    ∃ (model : Model Rat) (planner : Planner Rat),
      Model.create 1 [⟨2, 2⟩, ⟨1, 3⟩] .sparse = .ok model ∧
        create model.process (.finite 3) mixedModes = .ok planner ∧
        Serves model.process 3 mixedModes (planner.hold 100).2 ∧ model.process.Coherent ∧
        ∃ individual, (planner.hold 100).2.SplitsByAgent 100
          [([1, 0], [0, 1]), ([0, 0], [1, 0])] individual := by
  obtain ⟨model, created⟩ :
      ∃ model : Model Rat, Model.create 1 [⟨2, 2⟩, ⟨1, 3⟩] .sparse = .ok model := ⟨_, rfl⟩
  obtain ⟨planner, made⟩ : ∃ planner,
      create model.process (.finite 3) mixedModes = .ok planner := by
    cases created
    apply exists_of_isOk
    decide +kernel
  have serves : Serves model.process 3 mixedModes (planner.hold 100).2 := .held 100 (.created made)
  have coherent := DecisionProcess.coherent_of_model model
  have counted : (create model.process (.finite 3) mixedModes >>= fun planner =>
      (planner.hold 100).2.ask .actionObservation (.joint .count)).toOption = some 157 := by
    cases created
    decide +kernel
  have apart : (create model.process (.finite 3) mixedModes >>= fun planner =>
      (planner.hold 100).2.sequencesByAgent 100).toOption =
        some [([1, 0], [0, 1]), ([0, 0], [1, 0])] := by
    cases created
    decide +kernel
  rw [bind_of_eq_ok made] at counted apart
  obtain ⟨⟨count, known, each⟩, _⟩ := sequences_agree serves coherent
  obtain rfl : count = 157 := Except.ok.inj (known.symm.trans (eq_ok_of_toOption counted))
  obtain ⟨sequences, individual, splits⟩ := (each 100).1 (by decide)
  obtain rfl : sequences = _ :=
    Except.ok.inj (splits.split.symm.trans (eq_ok_of_toOption apart))
  exact ⟨model, planner, created, made, serves, coherent, individual, splits⟩

end TeamPlanning.Planner
