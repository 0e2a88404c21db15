import TeamPlanning.Proofs.History.Splitting

/-! # Joint histories by rows and by columns

A joint history is read in two ways. Symbol by symbol it is a table with a row of parts for each of
its symbols. Agent by agent it is the agents' own histories, reached through their numbers, noted or
worked out. The own histories spell the columns of the table, in whichever modes the histories are
kept and whichever records were made since. -/

set_option autoImplicit false

namespace TeamPlanning

variable {c : HistoryKind}

namespace TeamSpace

/-- The rows of parts of a joint history, and the numbers of the agents' own histories in it. -/
structure Parted (space : TeamSpace c) (alphabets : List Alphabet) (index : Nat)
    (rows : List (List (Symbol c))) (individual : List Nat) : Prop where
  split : (space.team.word index).mapM (·.parts alphabets) = .ok rows
  converted : space.toIndividual index = .ok individual
  matched : individual.length = space.agents.length
  own : ∀ (agent : Nat) histories number, space.agents[agent]? = some histories →
    individual[agent]? = some number →
      number < histories.total ∧ histories.word number = column rows agent

namespace Parted

variable {space : TeamSpace c} {alphabets : List Alphabet} {index : Nat}
  {rows : List (List (Symbol c))} {individual : List Nat}
  (parted : space.Parted alphabets index rows individual)
include parted

theorem length_rows : rows.length = (space.team.word index).length :=
  (mapM_eq_ok_iff.mp parted.split).length_eq.symm

theorem wide : ∀ row ∈ rows, row.length = alphabets.length := by
  intro row member
  obtain ⟨stage, listed⟩ := List.mem_iff_getElem?.mp member
  obtain ⟨long, each⟩ := mapM_eq_ok_iff_getElem?.mp parted.split
  have inside := (List.getElem?_eq_some_iff.mp listed).1
  rw [long] at inside
  exact (Symbol.partsWithin_of_parts
    (each stage _ row (List.getElem?_eq_getElem inside) listed)).length_eq

end Parted

variable {roster : Roster c} {space start : TeamSpace c} {alphabets : List Alphabet}
  {horizon : Nat} {eagerIndividual eagerJoint : Bool} {index : Nat}

theorem Charted.parted (charted : space.Charted roster) (inside : index < roster.team.total) :
    space.Parted roster.alphabets index ((roster.team.word index).map roster.parts)
      (roster.individual index) := by
  constructor
  case split =>
    rw [charted.follows.team.word_eq, mapM_eq_ok_iff, List.forall₂_map_right_iff,
      List.forall₂_same]
    exact fun symbol member => Roster.parts_of_known (roster.team.word_proper index symbol member)
  case converted => exact charted.toIndividual_eq_ok inside
  case matched => rw [Roster.length_individual, charted.agents.size]
  case own =>
    intro agent histories number present held
    obtain ⟨numbering, seated, follows⟩ := charted.agents.agent present
    obtain ⟨found, _, range⟩ := Roster.own_of_individual seated held
    have transposed := Roster.words_transposed (roster.team.word_proper index)
    rw [follows.shaped.total, follows.word_eq]
    exact ⟨range.mpr inside, (transposed.column_eq found).symm⟩

/-- The empty history has no rows, and the agents' own histories in it are empty. -/
theorem parted_of_no_symbols (planned : 1 ≤ horizon) (base : space.team.base = 0)
    (created : create alphabets horizon eagerIndividual eagerJoint = .ok space)
    (inside : index < space.team.total) :
    space.Parted alphabets index [] (List.replicate alphabets.length 0) := by
  have agents := agents_of_create planned created
  have total : space.team.total = 1 := by
    rw [(reads_of_create planned created).total, base, HistorySpace.first_zero_base planned]
  obtain rfl : index = 0 := by omega
  constructor
  case split => rw [HistorySpace.word_zero]; rfl
  case converted => exact toIndividual_of_no_symbols planned base created
  case matched => rw [List.length_replicate, agents.length_eq]
  case own =>
    intro agent histories number present held
    obtain rfl : number = 0 := List.eq_of_mem_replicate (List.mem_of_getElem? held)
    have seat := (List.getElem?_eq_some_iff.mp present).1
    rw [agents.length_eq] at seat
    have reads := ((forall₂_iff_getElem?.mp agents.flip).2 agent _ histories
      (List.getElem?_eq_getElem seat) present).2
    exact ⟨reads.total_pos planned, histories.word_zero⟩

/-- Every joint history of a created team comes in rows and in columns, whichever records were asked
for since. -/
theorem exists_parted (planned : 1 ≤ horizon)
    (created : create alphabets horizon eagerIndividual eagerJoint = .ok start)
    (requests : List Nat) (inside : index < (start.holdAll requests).team.total) :
    ∃ rows individual, (start.holdAll requests).Parted alphabets index rows individual := by
  have based := (reads_of_create planned created).based
  obtain ⟨_, _, _, _, teamed⟩ := create_eq_ok_iff.mp created
  cases base : start.team.base with
  | zero =>
      rw [HistorySpace.alphabet_of_created teamed.created, base] at based
      have same := holdAll_of_barren
        (HistorySpace.barren_of_created based planned teamed.created) requests
      rw [same] at inside ⊢
      exact ⟨_, _, parted_of_no_symbols planned base created inside⟩
  | succ digits =>
      rw [base] at based
      obtain ⟨roster, rfl, rfl⟩ := exists_roster_of_joint_base (joint_of_create created) based
        (Nat.succ_pos digits) created
      have charted := (charted_of_create planned created).holdAll requests
      rw [charted.team.shaped.total] at inside
      exact ⟨_, _, charted.parted inside⟩

end TeamSpace

end TeamPlanning
