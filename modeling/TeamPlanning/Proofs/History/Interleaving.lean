import TeamPlanning.Proofs.History.Reading
import TeamPlanning.Proofs.JointSymbols

/-! # Histories of pairs

An action-observation history interleaves an action history and an observation history. The three are
numbered apart, each kind in its own base. Over one alphabet and for one horizon the numbers match all
the same: every pair of histories with the same number of symbols interleaves in exactly one way, and
an extension by a pair extends either part. -/

set_option autoImplicit false

namespace TeamPlanning

namespace Symbol

@[simp] theorem length_actions_action (word : List (Symbol .action)) :
    (actions word).length = word.length := List.length_map _

@[simp] theorem length_actions_pairs (word : List (Symbol .actionObservation)) :
    (actions word).length = word.length := List.length_map _

@[simp] theorem length_observations_observation (word : List (Symbol .observation)) :
    (observations word).length = word.length := List.length_map _

@[simp] theorem length_observations_pairs (word : List (Symbol .actionObservation)) :
    (observations word).length = word.length := List.length_map _

theorem actions_append_pair (word : List (Symbol .actionObservation)) (action observation : Nat) :
    actions (word ++ [.actionObservation action observation]) = actions word ++ [action] := by
  simp [actions]

theorem observations_append_pair (word : List (Symbol .actionObservation))
    (action observation : Nat) :
    observations (word ++ [.actionObservation action observation]) =
      observations word ++ [observation] := by
  simp [observations]

theorem pairs_ext {word word' : List (Symbol .actionObservation)}
    (sameActions : actions word = actions word')
    (sameObservations : observations word = observations word') : word = word' := by
  rw [← zipWith_actions_observations word, sameActions, sameObservations,
    zipWith_actions_observations]

theorem forall_within_action_iff {word : List (Symbol .action)} {alphabet : Alphabet} :
    (∀ symbol ∈ word, symbol.within alphabet = true) ↔
      ∀ action ∈ actions word, action < alphabet.actions := by
  rw [actions, List.forall_mem_map]
  refine forall₂_congr fun symbol _ => ?_
  cases symbol
  simp [within]

theorem forall_within_observation_iff {word : List (Symbol .observation)} {alphabet : Alphabet} :
    (∀ symbol ∈ word, symbol.within alphabet = true) ↔
      ∀ observation ∈ observations word, observation < alphabet.observations := by
  rw [observations, List.forall_mem_map]
  refine forall₂_congr fun symbol _ => ?_
  cases symbol
  simp [within]

theorem forall_within_pairs_iff {word : List (Symbol .actionObservation)} {alphabet : Alphabet} :
    (∀ symbol ∈ word, symbol.within alphabet = true) ↔
      (∀ action ∈ actions word, action < alphabet.actions) ∧
        ∀ observation ∈ observations word, observation < alphabet.observations := by
  rw [actions, observations, List.forall_mem_map, List.forall_mem_map, ← forall₂_and]
  refine forall₂_congr fun symbol _ => ?_
  cases symbol
  simp [within]

end Symbol

variable {ν : Type}

/-- The histories of an agent, kind by kind, over one alphabet and for one horizon. -/
structure OwnSpaces (ν : Type) where
  pairs : HistorySpace .actionObservation ν
  actions : HistorySpace .action ν
  observations : HistorySpace .observation ν

namespace OwnSpaces

structure Reads (spaces : OwnSpaces ν) (horizon : Nat) : Prop where
  pairs : spaces.pairs.Reads horizon
  actions : spaces.actions.Reads horizon
  observations : spaces.observations.Reads horizon
  sameActions : spaces.actions.alphabet = spaces.pairs.alphabet
  sameObservations : spaces.observations.alphabet = spaces.pairs.alphabet

/-- The history of pairs is made of the action history and the observation history. -/
structure Interleaves (spaces : OwnSpaces ν) (index action observation : Nat) : Prop where
  inside : index < spaces.pairs.total
  insideActions : action < spaces.actions.total
  insideObservations : observation < spaces.observations.total
  actions : spaces.actions.word action =
    (Symbol.actions (spaces.pairs.word index)).map Symbol.action
  observations : spaces.observations.word observation =
    (Symbol.observations (spaces.pairs.word index)).map Symbol.observation

variable {spaces : OwnSpaces ν} {horizon index index' action action' observation observation' : Nat}

namespace Interleaves

variable (interleaves : spaces.Interleaves index action observation)
include interleaves

theorem actions_eq : Symbol.actions (spaces.actions.word action) =
    Symbol.actions (spaces.pairs.word index) := by
  rw [interleaves.actions, Symbol.actions_map]

theorem observations_eq : Symbol.observations (spaces.observations.word observation) =
    Symbol.observations (spaces.pairs.word index) := by
  rw [interleaves.observations, Symbol.observations_map]

theorem length_eq : (spaces.actions.word action).length = (spaces.pairs.word index).length ∧
    (spaces.observations.word observation).length = (spaces.pairs.word index).length := by
  rw [interleaves.actions, interleaves.observations]
  simp

end Interleaves

namespace Reads

variable (reads : spaces.Reads horizon)
include reads

theorem exists_parts (inside : index < spaces.pairs.total) :
    ∃ action observation, spaces.Interleaves index action observation := by
  obtain ⟨within, short⟩ := reads.pairs.proper index inside
  obtain ⟨withinActions, withinObservations⟩ := Symbol.forall_within_pairs_iff.mp within
  obtain ⟨action, insideActions, acted⟩ := reads.actions.numbered
    ((Symbol.actions (spaces.pairs.word index)).map Symbol.action)
    (by rwa [Symbol.forall_within_action_iff, Symbol.actions_map, reads.sameActions])
    (by simpa using short)
  obtain ⟨observation, insideObservations, observed⟩ := reads.observations.numbered
    ((Symbol.observations (spaces.pairs.word index)).map Symbol.observation)
    (by rwa [Symbol.forall_within_observation_iff, Symbol.observations_map,
      reads.sameObservations])
    (by simpa using short)
  exact ⟨action, observation, inside, insideActions, insideObservations, acted, observed⟩

/-- Histories with the same number of symbols interleave. -/
theorem exists_interleaving (insideActions : action < spaces.actions.total)
    (insideObservations : observation < spaces.observations.total)
    (matched : (spaces.actions.word action).length =
      (spaces.observations.word observation).length) :
    ∃ index, spaces.Interleaves index action observation := by
  obtain ⟨within, short⟩ := reads.actions.proper action insideActions
  obtain ⟨within', _⟩ := reads.observations.proper observation insideObservations
  have matched' : (Symbol.actions (spaces.actions.word action)).length =
      (Symbol.observations (spaces.observations.word observation)).length := by
    simpa using matched
  have acted := Symbol.actions_zipWith matched'
  have observed := Symbol.observations_zipWith matched'
  obtain ⟨index, inside, spelled⟩ := reads.pairs.numbered
    (List.zipWith Symbol.actionObservation (Symbol.actions (spaces.actions.word action))
      (Symbol.observations (spaces.observations.word observation)))
    (by
      rw [Symbol.forall_within_pairs_iff, acted, observed, ← reads.sameActions]
      refine ⟨Symbol.forall_within_action_iff.mp within, ?_⟩
      rw [reads.sameActions, ← reads.sameObservations]
      exact Symbol.forall_within_observation_iff.mp within')
    (by simpa [matched] using short)
  refine ⟨index, inside, insideActions, insideObservations, ?_, ?_⟩
  · rw [spelled, acted, Symbol.map_actions]
  · rw [spelled, observed, Symbol.map_observations]

theorem index_unique (interleaves : spaces.Interleaves index action observation)
    (interleaves' : spaces.Interleaves index' action observation) : index = index' := by
  refine reads.pairs.word_injective interleaves.inside interleaves'.inside (Symbol.pairs_ext ?_ ?_)
  · exact interleaves.actions_eq.symm.trans interleaves'.actions_eq
  · exact interleaves.observations_eq.symm.trans interleaves'.observations_eq

/-- An extension by a pair extends both parts. -/
theorem exists_parts_of_successor (interleaves : spaces.Interleaves index action observation)
    {next u w : Nat}
    (reached : spaces.pairs.successor index (.actionObservation u w) = .ok next) :
    ∃ action' observation', spaces.actions.successor action (.action u) = .ok action' ∧
      spaces.observations.successor observation (.observation w) = .ok observation' ∧
        spaces.Interleaves next action' observation' := by
  obtain ⟨_, inside, extended⟩ := reads.pairs.successor_eq_ok_iff.mp reached
  obtain ⟨action', observation', interleaves'⟩ := reads.exists_parts inside
  refine ⟨action', observation', ?_, ?_, interleaves'⟩
  · refine reads.actions.successor _ _ _ interleaves'.insideActions ?_
    rw [interleaves'.actions, extended, Symbol.actions_append_pair, List.map_append,
      ← interleaves.actions]
    rfl
  · refine reads.observations.successor _ _ _ interleaves'.insideObservations ?_
    rw [interleaves'.observations, extended, Symbol.observations_append_pair, List.map_append,
      ← interleaves.observations]
    rfl

/-- Parts that can both be extended make a history of pairs that can be. -/
theorem exists_successor (interleaves : spaces.Interleaves index action observation) {u w : Nat}
    (acted : spaces.actions.successor action (.action u) = .ok action')
    (observed : spaces.observations.successor observation (.observation w) = .ok observation') :
    ∃ next, spaces.pairs.successor index (.actionObservation u w) = .ok next ∧
      spaces.Interleaves next action' observation' := by
  obtain ⟨_, insideActions, acted⟩ := reads.actions.successor_eq_ok_iff.mp acted
  obtain ⟨_, insideObservations, observed⟩ := reads.observations.successor_eq_ok_iff.mp observed
  -- Both parts grew by one symbol, so they match again, and what they interleave to is the extension.
  obtain ⟨long, long'⟩ := interleaves.length_eq
  obtain ⟨next, interleaves'⟩ := reads.exists_interleaving insideActions insideObservations
    (by rw [acted, observed, List.length_append, List.length_append, long, long']; rfl)
  refine ⟨next, reads.pairs.successor _ _ _ interleaves'.inside (Symbol.pairs_ext ?_ ?_),
    interleaves'⟩
  · rw [← interleaves'.actions_eq, acted, Symbol.actions_append_pair, ← interleaves.actions_eq]
    simp [Symbol.actions]
  · rw [← interleaves'.observations_eq, observed, Symbol.observations_append_pair,
      ← interleaves.observations_eq]
    simp [Symbol.observations]

end Reads

end OwnSpaces

end TeamPlanning
