import TeamPlanning.Model.Basic
import TeamPlanning.Proofs.History.Interleaving
import TeamPlanning.Proofs.Planner.Upkeep
import TeamPlanning.Weight.Rational

/-! # Histories of pairs come apart

A planner takes an agent's action-observation history apart into an action history and an observation
history. In whichever modes the three kinds are kept, this is a one-to-one correspondence with the
pairs of histories of the same stage, and it commutes with extension. -/

set_option autoImplicit false

namespace TeamPlanning.Planner

variable {W : Type} [Weight W] {process : DecisionProcess W} {stages : Nat} {settings : Settings}
  {planner : Planner W} {agent : Nat}

/-- What the planner answers about an agent's own histories of a kind. -/
def own (planner : Planner W) (c : HistoryKind) (agent : Nat) {α : Type} (query : HistoryQuery c α) :
    Except Fault α :=
  planner.answer (.history c (.own agent query))

/-- The agent's action-observation histories come apart into pairs of an action history and an
observation history: into every pair of the same stage, each in exactly one way. -/
structure Decomposes (planner : Planner W) (agent : Nat) : Prop where
  counted : ∃ count, planner.own .actionObservation agent .count = .ok count ∧
    ∀ index, (∃ parts, planner.decompose agent index = .ok parts) ↔ index < count
  staged : ∀ index action observation,
    planner.decompose agent index = .ok (action, observation) →
      ∃ stage, planner.own .actionObservation agent (.stageOf index) = .ok stage ∧
        planner.own .action agent (.stageOf action) = .ok stage ∧
        planner.own .observation agent (.stageOf observation) = .ok stage
  injective : ∀ index index' parts, planner.decompose agent index = .ok parts →
    planner.decompose agent index' = .ok parts → index = index'
  surjective : ∀ stage action observation,
    planner.own .action agent (.stageOf action) = .ok stage →
      planner.own .observation agent (.stageOf observation) = .ok stage →
        ∃ index, planner.decompose agent index = .ok (action, observation)
  extended : ∀ index action observation u w,
    planner.decompose agent index = .ok (action, observation) →
      ∀ next, planner.own .actionObservation agent (.successor index (.actionObservation u w)) =
          .ok next →
        ∃ action' observation',
          planner.own .action agent (.successor action (.action u)) = .ok action' ∧
          planner.own .observation agent (.successor observation (.observation w)) =
            .ok observation' ∧
          planner.decompose agent next = .ok (action', observation')
  extends_both : ∀ index action observation u w,
    planner.decompose agent index = .ok (action, observation) →
      ∀ action' observation',
        planner.own .action agent (.successor action (.action u)) = .ok action' →
        planner.own .observation agent (.successor observation (.observation w)) =
            .ok observation' →
          ∃ next, planner.own .actionObservation agent
              (.successor index (.actionObservation u w)) = .ok next ∧
            planner.decompose agent next = .ok (action', observation')
  interleaved : ∀ index action observation,
    planner.decompose agent index = .ok (action, observation) →
      ∃ actions observations pairs, planner.symbols .action agent action = .ok actions ∧
        planner.symbols .observation agent observation = .ok observations ∧
        Symbol.pairs (Symbol.actions actions) (Symbol.observations observations) = .ok pairs ∧
        planner.indexOf agent pairs = .ok index

/-- The planner keeps the agent's histories of a kind in the space. -/
def Seats (planner : Planner W) (c : HistoryKind) (agent : Nat) (histories : HistorySpace c Unit) :
    Prop :=
  ∃ space, planner.space c = .ok space ∧ space.agent agent = .ok histories

namespace Seats

variable {c : HistoryKind} {histories : HistorySpace c Unit}
  (seats : planner.Seats c agent histories)
include seats

theorem own {α : Type} (query : HistoryQuery c α) :
    planner.own c agent query = histories.answer query := by
  obtain ⟨space, spaced, seated⟩ := seats
  exact (bind_of_eq_ok spaced _).trans (bind_of_eq_ok seated _)

omit [Weight W] in
theorem symbols (index : Nat) : planner.symbols c agent index = histories.symbols index := by
  obtain ⟨space, spaced, seated⟩ := seats
  exact (bind_of_eq_ok spaced _).trans (bind_of_eq_ok seated _)

omit [Weight W] in
theorem indexOf (word : List (Symbol c)) : planner.indexOf agent word = histories.indexOf word := by
  obtain ⟨space, spaced, seated⟩ := seats
  exact (bind_of_eq_ok spaced _).trans (bind_of_eq_ok seated _)

end Seats

theorem Serves.exists_seat (serves : Serves process stages settings planner)
    (seated : agent < process.alphabets.length) (c : HistoryKind) :
    ∃ histories : HistorySpace c Unit, planner.Seats c agent histories ∧
      histories.alphabet = process.alphabets[agent] ∧ histories.Reads stages := by
  obtain ⟨workspace, built, _, splits⟩ := serves.exists_splits
  have agents := forall₂_iff_getElem?.mp (splits c).agents.flip
  have listed := List.getElem?_eq_getElem seated
  obtain ⟨histories, present⟩ : ∃ histories, (workspace.space c).agents[agent]? = some histories :=
    ⟨_, List.getElem?_eq_getElem (by rwa [agents.1])⟩
  have spaced : planner.space c = .ok (workspace.space c) := by
    rw [Planner.space, Planner.workspace, built]
    rfl
  refine ⟨histories, ⟨_, spaced, ?_⟩, agents.2 agent _ histories listed present⟩
  rw [TeamSpace.agent, present]

/-- The planner keeps the agent's histories of every kind in the spaces. -/
structure SeatsAll (planner : Planner W) (agent : Nat) (spaces : OwnSpaces Unit) : Prop where
  pairs : planner.Seats .actionObservation agent spaces.pairs
  actions : planner.Seats .action agent spaces.actions
  observations : planner.Seats .observation agent spaces.observations

theorem Serves.exists_seats (serves : Serves process stages settings planner)
    (seated : agent < process.alphabets.length) :
    ∃ spaces, planner.SeatsAll agent spaces ∧ spaces.Reads stages := by
  obtain ⟨pairs, seats, alphabet, reads⟩ := serves.exists_seat seated .actionObservation
  obtain ⟨actions, seats', alphabet', reads'⟩ := serves.exists_seat seated .action
  obtain ⟨observations, seats'', alphabet'', reads''⟩ := serves.exists_seat seated .observation
  exact ⟨⟨pairs, actions, observations⟩, ⟨seats, seats', seats''⟩,
    ⟨reads, reads', reads'', alphabet'.trans alphabet.symm, alphabet''.trans alphabet.symm⟩⟩

namespace SeatsAll

variable {spaces : OwnSpaces Unit} {index action observation : Nat}
  (seats : planner.SeatsAll agent spaces) (reads : spaces.Reads stages)
include seats reads

omit [Weight W] in
theorem decompose_eq_ok_iff : planner.decompose agent index = .ok (action, observation) ↔
    spaces.Interleaves index action observation := by
  rw [decompose, seats.pairs.symbols]
  simp only [seats.actions.indexOf, seats.observations.indexOf, bind_eq_ok_iff,
    reads.pairs.symbols_eq_ok_iff, reads.actions.indexOf, reads.observations.indexOf]
  constructor
  · intro given
    obtain ⟨_, ⟨inside, rfl⟩, _, ⟨insideActions, acted⟩, _, ⟨insideObservations, observed⟩, made⟩ :=
      given
    cases made
    exact ⟨inside, insideActions, insideObservations, acted, observed⟩
  · intro interleaves
    exact ⟨_, ⟨interleaves.inside, rfl⟩, _, ⟨interleaves.insideActions, interleaves.actions⟩,
      _, ⟨interleaves.insideObservations, interleaves.observations⟩, rfl⟩

omit [Weight W] in
theorem exists_decompose_iff :
    (∃ parts, planner.decompose agent index = .ok parts) ↔ index < spaces.pairs.total := by
  constructor
  · intro given
    obtain ⟨⟨action, observation⟩, apart⟩ := given
    exact ((seats.decompose_eq_ok_iff reads).mp apart).inside
  · intro inside
    obtain ⟨action, observation, interleaves⟩ := reads.exists_parts inside
    exact ⟨_, (seats.decompose_eq_ok_iff reads).mpr interleaves⟩

omit [Weight W] in
theorem exists_pairs (interleaves : spaces.Interleaves index action observation) :
    ∃ actions observations pairs, planner.symbols .action agent action = .ok actions ∧
      planner.symbols .observation agent observation = .ok observations ∧
      Symbol.pairs (Symbol.actions actions) (Symbol.observations observations) = .ok pairs ∧
      planner.indexOf agent pairs = .ok index := by
  refine ⟨spaces.actions.word action, spaces.observations.word observation,
    spaces.pairs.word index, ?_, ?_, ?_, ?_⟩
  · rw [seats.actions.symbols, reads.actions.symbols_eq_ok_iff]
    exact ⟨interleaves.insideActions, rfl⟩
  · rw [seats.observations.symbols, reads.observations.symbols_eq_ok_iff]
    exact ⟨interleaves.insideObservations, rfl⟩
  · rw [interleaves.actions_eq, interleaves.observations_eq, Symbol.pairs, if_pos (by simp),
      Symbol.zipWith_actions_observations]
  · rw [seats.pairs.indexOf, reads.pairs.indexOf]
    exact ⟨interleaves.inside, rfl⟩

end SeatsAll

/-- In whichever modes a planner keeps its histories, every agent's action-observation histories come
apart uniquely. -/
theorem decompose_bijective (serves : Serves process stages settings planner)
    (seated : agent < process.alphabets.length) : planner.Decomposes agent := by
  obtain ⟨spaces, seats, reads⟩ := serves.exists_seats seated
  have apart : ∀ index action observation,
      planner.decompose agent index = .ok (action, observation) ↔
        spaces.Interleaves index action observation :=
    fun _ _ _ => seats.decompose_eq_ok_iff reads
  constructor
  case counted =>
    exact ⟨spaces.pairs.total, seats.pairs.own .count, fun _ => seats.exists_decompose_iff reads⟩
  case staged =>
    intro index action observation decomposed
    have interleaves := (apart _ _ _).mp decomposed
    obtain ⟨long, long'⟩ := interleaves.length_eq
    rw [seats.pairs.own, seats.actions.own, seats.observations.own]
    exact ⟨_, reads.pairs.stageOf_eq_ok_iff.mpr ⟨interleaves.inside, rfl⟩,
      reads.actions.stageOf_eq_ok_iff.mpr ⟨interleaves.insideActions, long⟩,
      reads.observations.stageOf_eq_ok_iff.mpr ⟨interleaves.insideObservations, long'⟩⟩
  case injective =>
    intro index index' parts decomposed decomposed'
    exact reads.index_unique ((apart _ _ _).mp decomposed) ((apart _ _ _).mp decomposed')
  case surjective =>
    intro stage action observation acted observed
    rw [seats.actions.own] at acted
    rw [seats.observations.own] at observed
    obtain ⟨insideActions, long⟩ := reads.actions.stageOf_eq_ok_iff.mp acted
    obtain ⟨insideObservations, long'⟩ := reads.observations.stageOf_eq_ok_iff.mp observed
    obtain ⟨index, interleaves⟩ :=
      reads.exists_interleaving insideActions insideObservations (long.trans long'.symm)
    exact ⟨index, (apart _ _ _).mpr interleaves⟩
  case extended =>
    intro index action observation u w decomposed next reached
    rw [seats.pairs.own] at reached
    obtain ⟨action', observation', acted, observed, interleaves⟩ :=
      reads.exists_parts_of_successor ((apart _ _ _).mp decomposed) reached
    exact ⟨action', observation', (seats.actions.own _).trans acted,
      (seats.observations.own _).trans observed, (apart _ _ _).mpr interleaves⟩
  case extends_both =>
    intro index action observation u w decomposed action' observation' acted observed
    rw [seats.actions.own] at acted
    rw [seats.observations.own] at observed
    obtain ⟨next, reached, interleaves⟩ :=
      reads.exists_successor ((apart _ _ _).mp decomposed) acted observed
    exact ⟨next, (seats.pairs.own _).trans reached, (apart _ _ _).mpr interleaves⟩
  case interleaved =>
    intro index action observation decomposed
    exact seats.exists_pairs reads ((apart _ _ _).mp decomposed)

/-- The settings that enumerate the agents' own histories, except those of actions. -/
def mixedModes : Settings :=
  { Settings.nothing with individual := ⟨true, false, true⟩ }

/-- Two agents over three stages. The first one's history 14 comes apart into its action history 5,
action 1 and then 0, and its observation history 4, observation 0 and then 1. -/
theorem decompose_bijective_mixed :
    ∃ (model : Model Rat) (planner : Planner Rat),
      Model.create 1 [⟨2, 2⟩, ⟨1, 3⟩] .sparse = .ok model ∧
        create model.process (.finite 3) mixedModes = .ok planner ∧
        0 < model.process.alphabets.length ∧ planner.Decomposes 0 ∧
        planner.symbols .actionObservation 0 14 =
          .ok [.actionObservation 1 0, .actionObservation 0 1] ∧
        planner.decompose 0 14 = .ok (5, 4) := by
  obtain ⟨model, created⟩ :
      ∃ model : Model Rat, Model.create 1 [⟨2, 2⟩, ⟨1, 3⟩] .sparse = .ok model := ⟨_, rfl⟩
  obtain ⟨planner, made⟩ : ∃ planner,
      create model.process (.finite 3) mixedModes = .ok planner := by
    cases created
    apply exists_of_isOk
    decide +kernel
  have seated : 0 < model.process.alphabets.length := by
    cases created
    decide
  have spelled : (create model.process (.finite 3) mixedModes >>= fun planner =>
      planner.symbols .actionObservation 0 14).toOption =
        some [.actionObservation 1 0, .actionObservation 0 1] := by
    cases created
    decide +kernel
  have apart : (create model.process (.finite 3) mixedModes >>= fun planner =>
      planner.decompose 0 14).toOption = some (5, 4) := by
    cases created
    decide +kernel
  rw [bind_of_eq_ok made] at spelled apart
  exact ⟨model, planner, created, made, seated, decompose_bijective (.created made) seated,
    eq_ok_of_toOption spelled, eq_ok_of_toOption apart⟩

end TeamPlanning.Planner
