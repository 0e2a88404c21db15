import TeamPlanning.Proofs.History.Levels

/-! # What the agents have of a joint history

In whichever modes the histories of a team are kept and whichever records it was asked for, a joint
history comes apart into one own history for every agent, and no number beyond the joint histories
does. Agents without symbols are no exception: then there is the empty joint history only. -/

set_option autoImplicit false

namespace TeamPlanning

variable {c : HistoryKind}

namespace HistorySpace

variable {ν : Type} {space : HistorySpace c ν} {alphabet : Alphabet} {horizon : Nat} {note : ν}
  {noteOf : ν → Nat → Symbol c → Except Fault ν}

/-- Without symbols, only the record of the empty history is held or can be made. -/
theorem record_of_no_symbols (based : c.base alphabet = .ok 0) (planned : 1 ≤ horizon)
    (created : enumerate alphabet horizon note noteOf = .ok space ∨
      closedForm alphabet horizon note = .ok space) (index : Nat) :
    Answers (space.record index) (if index = 0 then some (Record.start note) else none) := by
  obtain ⟨layout, laid⟩ := exists_layout based created
  obtain ⟨stored, _, rfl⟩ := StageLayout.geometric_eq_ok_iff.mp laid
  rcases created with created | created
  · rw [enumerate_of_no_symbols based planned stored] at created
    split at created
    · cases created
      cases index with
      | zero => rfl
      | succ index => exact ⟨_, rfl⟩
    · cases created
  · have total := (barren_of_closedForm based planned created).total
    rw [closedForm, bind_of_eq_ok based, bind_of_eq_ok laid] at created
    cases created
    cases index with
    | zero => rfl
    | succ index =>
        refine ⟨.history c (index + 1) _, if_pos ?_⟩
        simp [total]

end HistorySpace

namespace TeamSpace

variable {roster : Roster c} {space start : TeamSpace c} {alphabets : List Alphabet} {horizon : Nat}
  {eagerIndividual eagerJoint : Bool}

/-- The spaces read the histories over the given alphabets, and exactly the joint histories come
apart, each into one history of every agent. -/
structure Splits (space : TeamSpace c) (alphabets : List Alphabet) (horizon : Nat) : Prop where
  joint : Alphabet.joint alphabets = .ok space.team.alphabet
  team : space.team.Reads horizon
  agents : List.Forall₂
    (fun histories alphabet => histories.alphabet = alphabet ∧ histories.Reads horizon)
    space.agents alphabets
  own : ∀ index, index < space.team.total → ∃ individual,
    space.toIndividual index = .ok individual ∧
      List.Forall₂ (fun own histories => own < histories.total) individual space.agents
  beyond : ∀ index, space.team.total ≤ index →
    ∃ cause, space.toIndividual index = .error (.missing cause)

theorem Charted.splits (charted : space.Charted roster) :
    space.Splits roster.alphabets roster.team.horizon := by
  have total := charted.team.shaped.total
  constructor
  case joint =>
      rw [charted.team.shaped.alphabet]
      exact roster.joint
  case team => exact charted.follows.team.reads
  case agents =>
      rw [Roster.alphabets, List.forall₂_map_right_iff, forall₂_iff_getElem?]
      refine ⟨charted.agents.size.symm, fun place histories agent present seated => ?_⟩
      obtain ⟨agent', seated', follows⟩ := charted.agents.agent present
      obtain rfl : agent' = agent := Option.some.inj (seated'.symm.trans seated)
      rw [← roster.planned agent' (List.mem_of_getElem? seated)]
      exact ⟨follows.shaped.alphabet, follows.reads⟩
  case own =>
      intro index inside
      rw [total] at inside
      refine ⟨_, charted.toIndividual_eq_ok inside, forall₂_iff_getElem?.mpr ⟨?_, ?_⟩⟩
      · rw [charted.agents.size, Roster.length_individual]
      · intro place own histories held present
        obtain ⟨agent, seated, follows⟩ := charted.agents.agent present
        obtain ⟨_, _, range⟩ := Roster.own_of_individual seated held
        rw [follows.shaped.total]
        exact range.mpr inside
  case beyond =>
      intro index beyond
      rw [total] at beyond
      have answers := charted.toIndividual_answers index
      rwa [if_neg (Nat.not_lt_of_le beyond)] at answers

theorem agents_of_create (planned : 1 ≤ horizon)
    (created : create alphabets horizon eagerIndividual eagerJoint = .ok space) :
    List.Forall₂
      (fun histories alphabet => histories.alphabet = alphabet ∧ histories.Reads horizon)
      space.agents alphabets := by
  obtain ⟨_, seated, _⟩ := create_eq_ok_iff.mp created
  refine (mapM_eq_ok_iff.mp seated).flip.imp fun histories alphabet built => ?_
  have created := created_of_agentSpace built
  exact ⟨HistorySpace.alphabet_of_created created, HistorySpace.reads_of_created planned created⟩

theorem holdAll_of_barren (barren : space.team.Barren horizon) (requests : List Nat) :
    space.holdAll requests = space := by
  induction requests with
  | nil => rfl
  | cons index requests ih =>
      have first : (space.hold index).2 = space := by
        rw [TeamSpace.hold]
        simp only [barren.hold index]
      have split : space.holdAll (index :: requests) = (space.hold index).2.holdAll requests := rfl
      rw [split, first, ih]

/-- The empty joint history is made of the agents' empty histories. -/
theorem toIndividual_of_no_symbols (planned : 1 ≤ horizon) (base : space.team.base = 0)
    (created : create alphabets horizon eagerIndividual eagerJoint = .ok space) :
    space.toIndividual 0 = .ok (List.replicate alphabets.length 0) := by
  have based := (reads_of_create planned created).based
  obtain ⟨_, _, _, _, teamed⟩ := create_eq_ok_iff.mp created
  rw [HistorySpace.alphabet_of_created teamed.created, base] at based
  have noted : space.team.record 0 = .ok _ :=
    HistorySpace.record_of_no_symbols based planned teamed.created 0
  rw [toIndividual, noted]
  rfl

theorem splits_of_no_symbols (planned : 1 ≤ horizon) (base : space.team.base = 0)
    (created : create alphabets horizon eagerIndividual eagerJoint = .ok space) :
    space.Splits alphabets horizon := by
  have reads := reads_of_create planned created
  have agents := agents_of_create planned created
  obtain ⟨_, _, joint, joined, teamed⟩ := create_eq_ok_iff.mp created
  have alphabet := HistorySpace.alphabet_of_created teamed.created
  have based := reads.based
  rw [alphabet, base] at based
  have total : space.team.total = 1 := by
    rw [reads.total, base, HistorySpace.first_zero_base planned]
  have record := HistorySpace.record_of_no_symbols based planned teamed.created
  constructor
  case joint => rw [alphabet, joined]
  case team => exact reads
  case agents => exact agents
  case own =>
      intro index inside
      obtain rfl : index = 0 := by omega
      refine ⟨_, toIndividual_of_no_symbols planned base created,
        forall₂_iff_getElem?.mpr ⟨?_, fun place own histories held present => ?_⟩⟩
      · rw [List.length_replicate, agents.length_eq]
      · obtain rfl : own = 0 := List.eq_of_mem_replicate (List.mem_of_getElem? held)
        have seated := (forall₂_iff_getElem?.mp agents.flip).2
        obtain ⟨alphabet, listed⟩ : ∃ alphabet, alphabets[place]? = some alphabet := by
          refine ⟨_, List.getElem?_eq_getElem ?_⟩
          rw [← agents.length_eq]
          exact (List.getElem?_eq_some_iff.mp present).1
        exact (seated place alphabet histories listed present).2.total_pos planned
  case beyond =>
      intro index beyond
      obtain ⟨cause, failed⟩ : ∃ cause, space.team.record index = .error (.missing cause) := by
        have answers := record index
        rwa [if_neg (by omega)] at answers
      exact ⟨cause, by rw [toIndividual, failed]⟩

/-- A created team, with any records made on demand since, takes all joint histories apart. -/
theorem splits_of_create (planned : 1 ≤ horizon)
    (created : create alphabets horizon eagerIndividual eagerJoint = .ok start)
    (requests : List Nat) : (start.holdAll requests).Splits alphabets horizon := by
  have reads := reads_of_create planned created
  cases base : start.team.base with
  | zero =>
      obtain ⟨_, _, _, _, teamed⟩ := create_eq_ok_iff.mp created
      have based := reads.based
      rw [HistorySpace.alphabet_of_created teamed.created, base] at based
      rw [holdAll_of_barren (HistorySpace.barren_of_created based planned teamed.created)]
      exact splits_of_no_symbols planned base created
  | succ digits =>
      have based := reads.based
      rw [base] at based
      obtain ⟨roster, rfl, rfl⟩ := exists_roster_of_joint_base (joint_of_create created) based
        (Nat.succ_pos digits) created
      exact ((charted_of_create planned created).holdAll requests).splits

end TeamSpace

end TeamPlanning
