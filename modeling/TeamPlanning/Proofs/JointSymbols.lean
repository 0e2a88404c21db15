import TeamPlanning.Proofs.Products
import TeamPlanning.Proofs.Radix
import TeamPlanning.Proofs.Symbols
import TeamPlanning.Symbol.Joint

/-! # Joint symbols and their parts

A joint symbol within the team's alphabet has exactly one part for each agent, within the agent's
alphabet, and is made of these parts again. Conversely any choice of parts makes a joint symbol. -/

set_option autoImplicit false

namespace TeamPlanning

/-- The team's alphabet has the products of the agents' sizes, all in range. -/
theorem Alphabet.joint_eq_ok {agents : List Alphabet} {joint : Alphabet}
    (joined : Alphabet.joint agents = .ok joint) :
    (joint.actions = (agents.map (·.actions)).prod ∧ joint.actions < wordBound) ∧
      joint.observations = (agents.map (·.observations)).prod ∧
        joint.observations < wordBound := by
  obtain ⟨actions, first, joined⟩ := bind_eq_ok_iff.mp joined
  obtain ⟨observations, second, joined⟩ := bind_eq_ok_iff.mp joined
  cases joined
  exact ⟨Bounded.prod_eq_ok first, Bounded.prod_eq_ok second⟩

/-- The team's alphabet as it should be, in range or not. -/
def Alphabet.product (agents : List Alphabet) : Alphabet where
  actions := (agents.map (·.actions)).prod
  observations := (agents.map (·.observations)).prod

/-- The alphabet of all symbols whose parts are machine words. -/
def Alphabet.widest : Alphabet := ⟨wordBound, wordBound⟩

theorem Alphabet.joint_eq_product {agents : List Alphabet} {joint : Alphabet}
    (joined : Alphabet.joint agents = .ok joint) : joint = Alphabet.product agents := by
  obtain ⟨⟨actions, _⟩, observations, _⟩ := Alphabet.joint_eq_ok joined
  cases joint
  exact (Alphabet.mk.injEq ..).mpr ⟨actions, observations⟩

namespace Symbol

variable {c : HistoryKind} {agents : List Alphabet} {joint : Alphabet} {symbol : Symbol c}
  {parts : List (Symbol c)}

/-! ## The numbers in a list of parts -/

theorem observations_map (numbers : List Nat) :
    observations (numbers.map Symbol.observation) = numbers := by
  simp [observations, Function.comp_def]

theorem actions_map (numbers : List Nat) : actions (numbers.map Symbol.action) = numbers := by
  simp [actions, Function.comp_def]

theorem map_observations (parts : List (Symbol .observation)) :
    (observations parts).map Symbol.observation = parts := by
  induction parts with
  | nil => rfl
  | cons part parts ih =>
      cases part
      exact congrArg _ ih

theorem map_actions (parts : List (Symbol .action)) :
    (actions parts).map Symbol.action = parts := by
  induction parts with
  | nil => rfl
  | cons part parts ih =>
      cases part
      exact congrArg _ ih

theorem zipWith_actions_observations (parts : List (Symbol .actionObservation)) :
    List.zipWith Symbol.actionObservation (actions parts) (observations parts) = parts := by
  induction parts with
  | nil => rfl
  | cons part parts ih =>
      cases part
      exact congrArg _ ih

theorem actions_zipWith {first second : List Nat} (matched : first.length = second.length) :
    actions (List.zipWith Symbol.actionObservation first second) = first := by
  rw [← List.map_uncurry_zip_eq_zipWith, actions, List.map_map]
  exact List.map_fst_zip matched.le

theorem observations_zipWith {first second : List Nat} (matched : first.length = second.length) :
    observations (List.zipWith Symbol.actionObservation first second) = second := by
  rw [← List.map_uncurry_zip_eq_zipWith, observations, List.map_map]
  exact List.map_snd_zip matched.ge

/-! ## Splitting -/

theorem parts_observation_eq_ok_iff {o : Nat} {parts : List (Symbol .observation)} :
    (Symbol.observation o).parts agents = .ok parts ↔
      Radix.toIndividual o (agents.map (·.observations)) = .ok (observations parts) := by
  simp only [Symbol.parts, bind_eq_ok_iff, pure, Except.pure, Except.ok.injEq]
  constructor
  · intro given
    obtain ⟨numbers, read, rfl⟩ := given
    rw [read, observations_map]
  · intro read
    exact ⟨_, read, map_observations parts⟩

theorem parts_action_eq_ok_iff {a : Nat} {parts : List (Symbol .action)} :
    (Symbol.action a).parts agents = .ok parts ↔
      Radix.toIndividual a (agents.map (·.actions)) = .ok (actions parts) := by
  simp only [Symbol.parts, bind_eq_ok_iff, pure, Except.pure, Except.ok.injEq]
  constructor
  · intro given
    obtain ⟨numbers, read, rfl⟩ := given
    rw [read, actions_map]
  · intro read
    exact ⟨_, read, map_actions parts⟩

theorem parts_actionObservation_eq_ok_iff {a o : Nat} {parts : List (Symbol .actionObservation)} :
    (Symbol.actionObservation a o).parts agents = .ok parts ↔
      Radix.toIndividual a (agents.map (·.actions)) = .ok (actions parts) ∧
        Radix.toIndividual o (agents.map (·.observations)) = .ok (observations parts) := by
  simp only [Symbol.parts, bind_eq_ok_iff, pure, Except.pure, Except.ok.injEq]
  constructor
  · intro given
    obtain ⟨first, read, second, read', rfl⟩ := given
    have matched : first.length = second.length := by
      have length := (Radix.toIndividual_eq_ok_iff.mp read).1
      have length' := (Radix.toIndividual_eq_ok_iff.mp read').1
      rw [length, length', List.length_map, List.length_map]
    rw [read, read', actions_zipWith matched, observations_zipWith matched]
    exact ⟨rfl, rfl⟩
  · intro given
    obtain ⟨read, read'⟩ := given
    exact ⟨_, read, _, read', zipWith_actions_observations parts⟩

/-! ## Parts within the alphabets -/

/-- There is one part for each agent, within the agent's alphabet. -/
def PartsWithin (parts : List (Symbol c)) (agents : List Alphabet) : Prop :=
  List.Forall₂ (fun part alphabet => part.within alphabet = true) parts agents

theorem partsWithin_observation_iff {parts : List (Symbol .observation)} :
    PartsWithin parts agents ↔
      List.Forall₂ (· < ·) (observations parts) (agents.map (·.observations)) := by
  rw [observations, List.forall₂_map_left_iff, List.forall₂_map_right_iff, PartsWithin]
  refine Iff.of_eq (congrArg (List.Forall₂ · parts agents) ?_)
  funext part alphabet
  cases part
  exact decide_eq_true_eq

theorem partsWithin_action_iff {parts : List (Symbol .action)} :
    PartsWithin parts agents ↔
      List.Forall₂ (· < ·) (actions parts) (agents.map (·.actions)) := by
  rw [actions, List.forall₂_map_left_iff, List.forall₂_map_right_iff, PartsWithin]
  refine Iff.of_eq (congrArg (List.Forall₂ · parts agents) ?_)
  funext part alphabet
  cases part
  exact decide_eq_true_eq

theorem partsWithin_actionObservation_iff {parts : List (Symbol .actionObservation)} :
    PartsWithin parts agents ↔
      List.Forall₂ (· < ·) (actions parts) (agents.map (·.actions)) ∧
        List.Forall₂ (· < ·) (observations parts) (agents.map (·.observations)) := by
  rw [actions, observations, List.forall₂_map_left_iff, List.forall₂_map_right_iff,
    List.forall₂_map_left_iff, List.forall₂_map_right_iff, PartsWithin]
  simp only [List.forall₂_iff_zip]
  constructor
  · intro given
    obtain ⟨matched, within⟩ := given
    refine ⟨⟨matched, fun {part _} member => ?_⟩, matched, fun {part _} member => ?_⟩
    all_goals
      have both := within member
      cases part
      simp only [Symbol.within, Bool.and_eq_true, decide_eq_true_eq] at both
    · exact both.1
    · exact both.2
  · intro given
    obtain ⟨⟨matched, first⟩, _, second⟩ := given
    refine ⟨matched, fun {part _} member => ?_⟩
    have below := first member
    have below' := second member
    cases part
    simp only [Symbol.within, Bool.and_eq_true, decide_eq_true_eq]
    exact ⟨below, below'⟩

theorem PartsWithin.length_eq (within : PartsWithin parts agents) : parts.length = agents.length :=
  List.Forall₂.length_eq within

theorem partsWithin_of_parts (split : symbol.parts agents = .ok parts) :
    PartsWithin parts agents := by
  cases symbol with
  | observation o =>
      have read := parts_observation_eq_ok_iff.mp split
      exact partsWithin_observation_iff.mpr (Radix.forall₂_of_toIndividual read).1
  | action a =>
      have read := parts_action_eq_ok_iff.mp split
      exact partsWithin_action_iff.mpr (Radix.forall₂_of_toIndividual read).1
  | actionObservation a o =>
      obtain ⟨read, read'⟩ := parts_actionObservation_eq_ok_iff.mp split
      exact partsWithin_actionObservation_iff.mpr
        ⟨(Radix.forall₂_of_toIndividual read).1, (Radix.forall₂_of_toIndividual read').1⟩

/-- A symbol splits exactly if it lies within the product of the agents' alphabets. -/
theorem within_product_iff :
    symbol.within (Alphabet.product agents) = true ↔
      ∃ parts, symbol.parts agents = .ok parts := by
  cases symbol with
  | observation o =>
      simp only [Symbol.within, decide_eq_true_eq]
      constructor
      · intro below
        obtain ⟨numbers, read⟩ := Radix.toIndividual_of_lt below
        refine ⟨numbers.map Symbol.observation, parts_observation_eq_ok_iff.mpr ?_⟩
        rw [read, observations_map]
      · intro given
        obtain ⟨parts, split⟩ := given
        exact (Radix.forall₂_of_toIndividual (parts_observation_eq_ok_iff.mp split)).2
  | action a =>
      simp only [Symbol.within, decide_eq_true_eq]
      constructor
      · intro below
        obtain ⟨numbers, read⟩ := Radix.toIndividual_of_lt below
        refine ⟨numbers.map Symbol.action, parts_action_eq_ok_iff.mpr ?_⟩
        rw [read, actions_map]
      · intro given
        obtain ⟨parts, split⟩ := given
        exact (Radix.forall₂_of_toIndividual (parts_action_eq_ok_iff.mp split)).2
  | actionObservation a o =>
      simp only [Symbol.within, Bool.and_eq_true, decide_eq_true_eq]
      constructor
      · intro given
        obtain ⟨below, below'⟩ := given
        obtain ⟨first, read⟩ := Radix.toIndividual_of_lt below
        obtain ⟨second, read'⟩ := Radix.toIndividual_of_lt below'
        have matched : first.length = second.length := by
          have length := (Radix.toIndividual_eq_ok_iff.mp read).1
          have length' := (Radix.toIndividual_eq_ok_iff.mp read').1
          rw [length, length', List.length_map, List.length_map]
        refine ⟨List.zipWith Symbol.actionObservation first second,
          parts_actionObservation_eq_ok_iff.mpr ?_⟩
        rw [actions_zipWith matched, observations_zipWith matched]
        exact ⟨read, read'⟩
      · intro given
        obtain ⟨parts, split⟩ := given
        obtain ⟨read, read'⟩ := parts_actionObservation_eq_ok_iff.mp split
        exact ⟨(Radix.forall₂_of_toIndividual read).2, (Radix.forall₂_of_toIndividual read').2⟩

/-! ## Joining -/

/-- Parts join into the symbol that splits into them, if that is made of machine words. -/
theorem ofParts_eq_ok_iff :
    ofParts parts agents = .ok symbol ↔
      symbol.parts agents = .ok parts ∧ symbol.within Alphabet.widest = true := by
  cases symbol with
  | observation o =>
      rw [parts_observation_eq_ok_iff, Symbol.within, Alphabet.widest, decide_eq_true_eq,
        ← Radix.toJoint_eq_ok_iff_toIndividual]
      simp [ofParts, bind_eq_ok_iff, pure, Except.pure]
  | action a =>
      rw [parts_action_eq_ok_iff, Symbol.within, Alphabet.widest, decide_eq_true_eq,
        ← Radix.toJoint_eq_ok_iff_toIndividual]
      simp [ofParts, bind_eq_ok_iff, pure, Except.pure]
  | actionObservation a o =>
      rw [parts_actionObservation_eq_ok_iff, Symbol.within, Alphabet.widest, Bool.and_eq_true,
        decide_eq_true_eq, decide_eq_true_eq, and_and_and_comm,
        ← Radix.toJoint_eq_ok_iff_toIndividual, ← Radix.toJoint_eq_ok_iff_toIndividual]
      simp [ofParts, bind_eq_ok_iff, pure, Except.pure]

section Joint

variable (joined : Alphabet.joint agents = .ok joint)
include joined

/-- A symbol splits exactly if it lies within the team's alphabet. -/
theorem within_joint_iff :
    symbol.within joint = true ↔ ∃ parts, symbol.parts agents = .ok parts := by
  rw [Alphabet.joint_eq_product joined, within_product_iff]

theorem ofParts_of_parts (split : symbol.parts agents = .ok parts) :
    ofParts parts agents = .ok symbol := by
  have within := (within_joint_iff joined).mpr ⟨parts, split⟩
  obtain ⟨⟨_, smallActions⟩, _, smallObservations⟩ := Alphabet.joint_eq_ok joined
  refine ofParts_eq_ok_iff.mpr ⟨split, ?_⟩
  cases symbol with
  | observation o =>
      exact decide_eq_true (Nat.lt_trans (of_decide_eq_true within) smallObservations)
  | action a => exact decide_eq_true (Nat.lt_trans (of_decide_eq_true within) smallActions)
  | actionObservation a o =>
      simp only [Symbol.within, Bool.and_eq_true, decide_eq_true_eq] at within ⊢
      exact ⟨Nat.lt_trans within.1 smallActions, Nat.lt_trans within.2 smallObservations⟩

end Joint

theorem exists_parts (within : PartsWithin parts agents) :
    ∃ symbol : Symbol c, symbol.parts agents = .ok parts := by
  cases c with
  | observation =>
      obtain ⟨o, read⟩ := Radix.exists_toIndividual (partsWithin_observation_iff.mp within)
      exact ⟨.observation o, parts_observation_eq_ok_iff.mpr read⟩
  | action =>
      obtain ⟨a, read⟩ := Radix.exists_toIndividual (partsWithin_action_iff.mp within)
      exact ⟨.action a, parts_action_eq_ok_iff.mpr read⟩
  | actionObservation =>
      obtain ⟨first, second⟩ := partsWithin_actionObservation_iff.mp within
      obtain ⟨a, read⟩ := Radix.exists_toIndividual first
      obtain ⟨o, read'⟩ := Radix.exists_toIndividual second
      exact ⟨.actionObservation a o, parts_actionObservation_eq_ok_iff.mpr ⟨read, read'⟩⟩

end Symbol

end TeamPlanning
