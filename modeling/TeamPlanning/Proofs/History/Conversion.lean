import TeamPlanning.Proofs.History.Creation

/-! # Between joint and individual histories

The agents' own histories in a joint history depend neither on the modes of a team nor on the
records that were made on demand. They are extended together with the joint one, and the joint
histories of a stage are exactly the choices of one history of that stage per agent. -/

set_option autoImplicit false

namespace TeamPlanning.TeamSpace

variable {c : HistoryKind} {roster : Roster c} {alphabets : List Alphabet} {horizon : Nat}
  {eagerIndividual eagerJoint : Bool} {space : TeamSpace c}

/-! ## From joint histories to the agents' own -/

/-- A joint history has an extension by the symbol, whose own histories are the extensions by the
symbol's parts of the own histories of the joint one, agent by agent. -/
def ExtendsByParts (space : TeamSpace c) (index : Nat) (symbol : Symbol c) : Prop :=
  ∃ next parts here there,
    space.team.successor index symbol = .ok next ∧
      symbol.parts space.alphabets = .ok parts ∧
      space.toIndividual index = .ok here ∧
      space.toIndividual next = .ok there ∧
      parts.length = space.agents.length ∧
      here.length = space.agents.length ∧
      there.length = space.agents.length ∧
      ∀ (place : Nat) histories, space.agents[place]? = some histories →
        ∃ own part extended, here[place]? = some own ∧ parts[place]? = some part ∧
          there[place]? = some extended ∧ histories.successor own part = .ok extended

theorem Charted.extendsByParts (charted : space.Charted roster) {index : Nat} {symbol : Symbol c}
    (known : roster.team.Known symbol)
    (inside : roster.team.extend index symbol < roster.team.total) :
    space.ExtendsByParts index symbol := by
  have present := Nat.lt_trans (roster.team.lt_extend index symbol) inside
  have size := charted.agents.size
  refine ⟨_, _, _, _, charted.follows.team.successor_eq_ok_iff.mpr ⟨⟨known, inside⟩, rfl⟩,
    by rw [charted.alphabets, Roster.parts_of_known known], charted.toIndividual_eq_ok present,
    charted.toIndividual_eq_ok inside, by rw [Roster.length_parts known, size],
    by rw [Roster.length_individual, size], by rw [Roster.length_individual, size], ?_⟩
  intro place histories found
  obtain ⟨agent, seated, follows⟩ := charted.agents.agent found
  have spot := (List.getElem?_eq_some_iff.mp seated).1
  obtain ⟨own, held⟩ : ∃ own, (roster.individual index)[place]? = some own :=
    ⟨_, List.getElem?_eq_getElem (by rwa [Roster.length_individual])⟩
  obtain ⟨part, given⟩ : ∃ part, (roster.parts symbol)[place]? = some part :=
    ⟨_, List.getElem?_eq_getElem (by rwa [Roster.length_parts known])⟩
  obtain ⟨within, below⟩ := Roster.extend_own known seated held given
  exact ⟨own, part, _, held, given, Roster.individual_extend known seated held given,
    follows.successor_eq_ok_iff.mpr ⟨⟨within, below.mpr inside⟩, rfl⟩⟩

/-- If a team can be created in one combination of modes, it can be in all. Each joint history then
has the same own histories in every mode and after any requests for records, noted or not. The
empty one has empty ones, and an extension has the extensions by the parts of the symbol. -/
theorem toIndividual_homomorphism {created : TeamSpace c} (sized : Sized alphabets)
    (planned : 1 ≤ horizon)
    (success : create alphabets horizon eagerIndividual eagerJoint = .ok created) :
    ∃ joint, Alphabet.joint alphabets = .ok joint ∧
      ∃ individual : Nat → List Nat, ∀ eagerIndividual eagerJoint, ∃ start : TeamSpace c,
        create alphabets horizon eagerIndividual eagerJoint = .ok start ∧ ∀ requests,
          (start.holdAll requests).agents.length = alphabets.length ∧
          (start.holdAll requests).team.total = created.team.total ∧
          (∀ index, Answers ((start.holdAll requests).toIndividual index)
            (if index < created.team.total then some (individual index) else none)) ∧
          (start.holdAll requests).toIndividual 0 = .ok (List.replicate alphabets.length 0) ∧
          (∀ index noted, (start.holdAll requests).notedIndividual index = .ok noted →
            (start.holdAll requests).toIndividual index = .ok noted) ∧
          ∀ symbol index stage, symbol.within joint = true →
            (start.holdAll requests).team.stageOf index = .ok stage → stage + 1 < horizon →
            (start.holdAll requests).ExtendsByParts index symbol := by
  obtain ⟨roster, rfl, rfl⟩ := exists_roster sized success
  have total := (follows_of_create success).team.shaped.total
  refine ⟨_, roster.joint, roster.individual, fun eagerIndividual eagerJoint => ?_⟩
  obtain ⟨start, again, fresh⟩ := exists_create planned eagerIndividual eagerJoint
  refine ⟨start, again, fun requests => ?_⟩
  have charted := fresh.holdAll requests
  rw [total]
  refine ⟨?_, charted.team.shaped.total, charted.toIndividual_answers, ?_, ?_, ?_⟩
  · rw [charted.agents.size, Roster.alphabets, List.length_map]
  · rw [charted.toIndividual_eq_ok (Nat.lt_of_lt_of_le planned roster.team.horizon_le_total),
      Roster.individual_zero, Roster.alphabets, List.length_map]
  · intro index noted held
    obtain ⟨inside, rfl⟩ := charted.eq_of_notedIndividual held
    exact charted.toIndividual_eq_ok inside
  · intro symbol index stage known staged room
    obtain ⟨_, rfl⟩ := charted.follows.team.stageOf_eq_ok_iff.mp staged
    exact charted.extendsByParts known ((Numbering.extend_lt_total_iff known index).mpr room)

/-- Two agents who observe two and three things, over two stages. -/
theorem toIndividual_homomorphism_pair :
    Sized [⟨1, 2⟩, ⟨1, 3⟩] ∧
      ∃ created : TeamSpace .observation, create [⟨1, 2⟩, ⟨1, 3⟩] 2 false false = .ok created ∧
        ∃ individual : Nat → List Nat, ∀ eagerIndividual eagerJoint,
          ∃ start : TeamSpace .observation,
            create [⟨1, 2⟩, ⟨1, 3⟩] 2 eagerIndividual eagerJoint = .ok start ∧
              ∀ requests index, Answers ((start.holdAll requests).toIndividual index)
                (if index < created.team.total then some (individual index) else none) := by
  have sized : Sized [⟨1, 2⟩, ⟨1, 3⟩] := by
    simp [Sized]
  obtain ⟨created, success⟩ : ∃ created : TeamSpace .observation,
      create [⟨1, 2⟩, ⟨1, 3⟩] 2 false false = .ok created := ⟨_, rfl⟩
  obtain ⟨_, _, individual, converts⟩ := toIndividual_homomorphism sized (by decide) success
  refine ⟨sized, created, success, individual, fun eagerIndividual eagerJoint => ?_⟩
  obtain ⟨start, again, agrees⟩ := converts eagerIndividual eagerJoint
  exact ⟨start, again, fun requests => (agrees requests).2.2.1⟩

/-! ## From the agents' own histories to joint ones -/

/-- The own histories of a stage, one for each agent, are those of a joint history. -/
theorem exists_toJoint (follows : space.Follows roster) (inhabited : roster.agents ≠ [])
    {stage : Nat} {individual : List Nat} (matched : individual.length = roster.agents.length)
    (staged : ∀ (place : Nat) agent own, roster.agents[place]? = some agent →
      individual[place]? = some own → own < agent.total ∧ (agent.word own).length = stage) :
    ∃ index, space.toJoint stage individual = .ok index := by
  obtain ⟨word, proper, rfl, _, back⟩ := Roster.exists_word_of_individual matched
    fun place agent own seated given => (staged place agent own seated given).2
  have same := Numbering.word_number proper
  refine ⟨roster.team.number word, follows.toJoint_eq_ok_iff.mpr ⟨?_, by rw [same], back _ same⟩⟩
  obtain ⟨agent, others, agents⟩ := List.exists_cons_of_ne_nil inhabited
  obtain ⟨own, given⟩ : ∃ own, individual[0]? = some own := by
    refine ⟨_, List.getElem?_eq_getElem ?_⟩
    rw [matched, agents]
    exact Nat.succ_pos _
  obtain ⟨inside, length⟩ := staged 0 agent own (by rw [agents]; rfl) given
  have short := (Numbering.length_word_lt_iff own).mpr inside
  rw [length, roster.planned agent (by rw [agents]; exact List.mem_cons_self)] at short
  exact (Numbering.number_lt_total_iff proper).mpr short

/-- The joint histories of a stage are exactly the choices of one history of that stage for each
agent, and the two directions of the conversion undo each other. -/
theorem toJoint_inverse (inhabited : alphabets ≠ []) (sized : Sized alphabets)
    (success : create alphabets horizon eagerIndividual eagerJoint = .ok space) :
    space.agents.length = alphabets.length ∧
      (∀ stage individual, (∃ index, space.toJoint stage individual = .ok index) ↔
        individual.length = alphabets.length ∧
          ∀ (place : Nat) histories own, space.agents[place]? = some histories →
            individual[place]? = some own →
              own < histories.total ∧ histories.stageOf own = .ok stage) ∧
      (∀ stage individual index, space.toJoint stage individual = .ok index →
        space.team.stageOf index = .ok stage ∧ space.toIndividual index = .ok individual) ∧
      ∀ index, index < space.team.total → ∃ stage individual,
        space.team.stageOf index = .ok stage ∧ space.toIndividual index = .ok individual ∧
          space.toJoint stage individual = .ok index := by
  obtain ⟨roster, rfl, rfl⟩ := exists_roster sized success
  have follows := follows_of_create success
  have size := follows.agents.size
  have same : roster.alphabets.length = roster.agents.length := List.length_map _
  have read : ∀ index, index < roster.team.total →
      space.toIndividual index = .ok (roster.individual index) := by
    intro index inside
    have planned := Nat.zero_lt_of_lt ((Numbering.length_word_lt_iff index).mpr inside)
    exact (charted_of_create planned success).toIndividual_eq_ok inside
  rw [same, follows.team.shaped.total]
  refine ⟨size, ?_, ?_, ?_⟩
  · intro stage individual
    constructor
    · intro given
      obtain ⟨index, joined⟩ := given
      obtain ⟨inside, staged, rfl⟩ := follows.toJoint_eq_ok_iff.mp joined
      refine ⟨roster.length_individual index, fun place histories own found held => ?_⟩
      obtain ⟨agent, seated, own_follows⟩ := follows.agents.agent found
      obtain ⟨_, length, present⟩ := Roster.own_of_individual seated held
      rw [own_follows.shaped.total, own_follows.stageOf_eq_ok_iff, length]
      exact ⟨present.mpr inside, present.mpr inside, staged⟩
    · intro given
      obtain ⟨matched, each⟩ := given
      refine exists_toJoint follows (fun empty => ?_) matched fun place agent own seated given => ?_
      · rw [Roster.alphabets, empty] at inhabited
        exact inhabited rfl
      · obtain ⟨histories, found, own_follows⟩ := follows.agents.histories seated
        obtain ⟨_, staged⟩ := each place histories own found given
        exact own_follows.stageOf_eq_ok_iff.mp staged
  · intro stage individual index joined
    obtain ⟨inside, staged, rfl⟩ := follows.toJoint_eq_ok_iff.mp joined
    exact ⟨follows.team.stageOf_eq_ok_iff.mpr ⟨inside, staged⟩, read index inside⟩
  · intro index inside
    exact ⟨_, _, follows.team.stageOf_eq_ok_iff.mpr ⟨inside, rfl⟩, read index inside,
      follows.toJoint_eq_ok_iff.mpr ⟨inside, rfl, rfl⟩⟩

/-- Two agents with pairs of actions and observations, over two stages. -/
theorem toJoint_inverse_pair :
    Sized [⟨2, 1⟩, ⟨1, 3⟩] ∧ ∃ space : TeamSpace .actionObservation,
      create [⟨2, 1⟩, ⟨1, 3⟩] 2 false false = .ok space ∧
        ∀ index, index < space.team.total → ∃ stage individual,
          space.team.stageOf index = .ok stage ∧ space.toIndividual index = .ok individual ∧
            space.toJoint stage individual = .ok index := by
  have sized : Sized [⟨2, 1⟩, ⟨1, 3⟩] := by
    simp [Sized]
  obtain ⟨space, success⟩ : ∃ space : TeamSpace .actionObservation,
      create [⟨2, 1⟩, ⟨1, 3⟩] 2 false false = .ok space := ⟨_, rfl⟩
  exact ⟨sized, space, success, (toJoint_inverse (by simp) sized success).2.2.2⟩

end TeamPlanning.TeamSpace
