import TeamPlanning.History.Team
import TeamPlanning.Proofs.History.Agreement
import TeamPlanning.Proofs.History.Growth
import TeamPlanning.Proofs.History.Roster

/-! # The histories of a team

The spaces of a team follow a roster of numberings. The numbers of the agents' own histories are
then those that the roster reads off the joint word, whether they were noted during an enumeration,
noted on demand, or are computed anew, and they lead back to the joint history. -/

set_option autoImplicit false

namespace TeamPlanning.TeamSpace

variable {c : HistoryKind} {roster : Roster c}

/-! ## The agents' spaces -/

theorem symbolsAt_eq_ok_iff {histories : HistorySpace c Unit} {numbering : Numbering c}
    (follows : histories.Follows numbering) {agent index stage : Nat} {word : List (Symbol c)} :
    symbolsAt histories agent index stage = .ok word ↔
      (index < numbering.total ∧ numbering.word index = word) ∧ word.length = stage := by
  rw [symbolsAt, bind_eq_ok_iff]
  simp only [follows.symbols_eq_ok_iff]
  constructor
  · intro given
    obtain ⟨read, known, accepted⟩ := given
    split at accepted
    · rename_i matched
      cases accepted
      exact ⟨known, matched⟩
    · cases accepted
  · intro given
    obtain ⟨known, matched⟩ := given
    exact ⟨word, known, if_pos matched⟩

/-- The agents' spaces follow the numberings of a roster, seat by seat. -/
def Seated (agents : List (HistorySpace c Unit)) (roster : Roster c) : Prop :=
  List.Forall₂ (fun histories agent => histories.Follows agent) agents roster.agents

namespace Seated

variable {agents : List (HistorySpace c Unit)} (seated : Seated agents roster) {place : Nat}
include seated

theorem size : agents.length = roster.agents.length := List.Forall₂.length_eq seated

theorem agent {histories : HistorySpace c Unit} (found : agents[place]? = some histories) :
    ∃ agent, roster.agents[place]? = some agent ∧ histories.Follows agent := by
  have inside := (List.getElem?_eq_some_iff.mp found).1
  rw [seated.size] at inside
  have present := List.getElem?_eq_getElem inside
  exact ⟨_, present, (forall₂_iff_getElem?.mp seated).2 place _ _ found present⟩

theorem histories {agent : Numbering c} (found : roster.agents[place]? = some agent) :
    ∃ histories, agents[place]? = some histories ∧ histories.Follows agent := by
  have inside := (List.getElem?_eq_some_iff.mp found).1
  rw [← seated.size] at inside
  have present := List.getElem?_eq_getElem inside
  exact ⟨_, present, (forall₂_iff_getElem?.mp seated).2 place _ _ present found⟩

theorem own_words_eq_ok_iff {individual : List Nat} {stage : Nat} {own : List (List (Symbol c))}
    (matched : individual.length = roster.agents.length) :
    ((agents.zip individual).zipIdx.mapM fun ((histories, index), agent) =>
        symbolsAt histories agent index stage) = .ok own ↔
      (∀ place, place < roster.agents.length → ∀ agent number,
        roster.agents[place]? = some agent → individual[place]? = some number →
          number < agent.total ∧ (agent.word number).length = stage) ∧
        roster.spelled individual = own := by
  have long : (agents.zip individual).zipIdx.length = roster.agents.length := by
    rw [List.length_zipIdx, List.length_zip, seated.size, matched, Nat.min_self]
  rw [← long]
  refine mapM_eq_ok_iff_of_each ?_ fun place item word listed found result => ?_
  · rw [long, Roster.spelled, List.length_zipWith, matched, Nat.min_self]
  · rw [List.getElem?_zipIdx, Option.map_eq_some_iff] at listed
    obtain ⟨⟨histories, index⟩, pair, rfl⟩ := listed
    obtain ⟨present, given⟩ := List.getElem?_zip_eq_some.mp pair
    obtain ⟨agent, known, follows⟩ := seated.agent present
    obtain ⟨number, given', spelled⟩ := Roster.getElem?_spelled matched known
    obtain rfl : number = index := Option.some.inj (given'.symm.trans given)
    obtain rfl : agent.word number = word := Option.some.inj (spelled.symm.trans found)
    simp only [symbolsAt_eq_ok_iff follows, known, given, Option.some.injEq]
    constructor
    · intro given
      obtain ⟨⟨inside, rfl⟩, staged⟩ := given
      refine ⟨?_, rfl⟩
      intro _ _ same same'
      subst same
      subst same'
      exact ⟨inside, staged⟩
    · intro given
      obtain ⟨allowed, rfl⟩ := given
      obtain ⟨inside, staged⟩ := allowed agent number rfl rfl
      exact ⟨⟨inside, rfl⟩, staged⟩

/-- A note is extended for every agent, unless a history would leave the horizon. -/
theorem extendIndividual_eq_ok_iff {symbol : Symbol c} (known : roster.team.Known symbol)
    {index : Nat} {next : List Nat} :
    extendIndividual agents roster.alphabets (roster.individual index) symbol = .ok next ↔
      (∀ place, place < roster.agents.length →
        roster.team.extend index symbol < roster.team.total) ∧
        roster.individual (roster.team.extend index symbol) = next := by
  have long : ((agents.zip (roster.individual index)).zip (roster.parts symbol)).length =
      roster.agents.length := by
    rw [List.length_zip, List.length_zip, seated.size, Roster.length_individual,
      Roster.length_parts known, Nat.min_self, Nat.min_self]
  rw [extendIndividual, bind_of_eq_ok (Roster.parts_of_known known), ← long]
  refine mapM_eq_ok_iff_of_each ?_ fun place item number listed found result => ?_
  · rw [long, Roster.length_individual]
  · obtain ⟨⟨histories, own⟩, part⟩ := item
    obtain ⟨pair, given⟩ := List.getElem?_zip_eq_some.mp listed
    obtain ⟨present, held⟩ := List.getElem?_zip_eq_some.mp pair
    obtain ⟨agent, place_eq, follows⟩ := seated.agent present
    have extended := Roster.individual_extend known place_eq held given
    obtain rfl : agent.extend own part = number := Option.some.inj (extended.symm.trans found)
    obtain ⟨within, inside⟩ := Roster.extend_own known place_eq held given
    simp only [follows.successor_eq_ok_iff, inside, within, true_and]

/-- A note that the roster reads off a joint history is extended to one that it reads off. -/
theorem inherited : roster.team.Inherited
    (fun index individual => roster.individual index = individual)
    (fun individual _ symbol => extendIndividual agents roster.alphabets individual symbol) := by
  intro index symbol _ next same known extended
  subst same
  exact ((seated.extendIndividual_eq_ok_iff known).mp extended).2

theorem not_refused (fault : Fault) :
    ¬ roster.team.Refused (fun index individual => roster.individual index = individual)
      (fun individual _ symbol => extendIndividual agents roster.alphabets individual symbol)
      fault := by
  intro given
  obtain ⟨index, symbol, _, rfl, known, inside, refused⟩ := given
  have extended := (seated.extendIndividual_eq_ok_iff known).mpr ⟨fun _ _ => inside, rfl⟩
  cases refused.symm.trans extended

theorem individual_eq_ok {index : Nat} (inside : index < roster.team.total) :
    (agents.zipIdx.mapM fun (histories, agent) => histories.indexOf
      (((roster.team.word index).map roster.parts).filterMap (·[agent]?))) =
        .ok (roster.individual index) := by
  rw [mapM_eq_ok_iff_getElem?, List.length_zipIdx, Roster.length_individual, seated.size]
  refine ⟨rfl, fun place item number listed held => ?_⟩
  rw [List.getElem?_zipIdx, Option.map_eq_some_iff] at listed
  obtain ⟨histories, present, rfl⟩ := listed
  obtain ⟨agent, known, follows⟩ := seated.agent present
  obtain ⟨found, _, range⟩ := Roster.own_of_individual known held
  have column := (Roster.words_transposed (roster.team.word_proper index)).column_eq found
  refine follows.indexOf_eq_ok_iff.mpr ⟨range.mpr inside, ?_⟩
  rw [← column, Nat.zero_add]
  rfl

end Seated

/-! ## The team -/

variable {space : TeamSpace c}

/-- Every question about the histories of a team has the answer of the roster. -/
structure Follows (space : TeamSpace c) (roster : Roster c) : Prop where
  alphabets : space.alphabets = roster.alphabets
  agents : Seated space.agents roster
  team : space.team.Follows roster.team

namespace Follows

variable (follows : space.Follows roster)
include follows

/-- Joining succeeds exactly for the agents' own histories of a joint history, all of its stage. -/
theorem toJoint_eq_ok_iff {stage index : Nat} {individual : List Nat} :
    space.toJoint stage individual = .ok index ↔
      index < roster.team.total ∧ (roster.team.word index).length = stage ∧
        roster.individual index = individual := by
  have joined : ∀ {word : List (Symbol c)}, roster.team.Proper word →
      ((List.range word.length).mapM fun t =>
        Symbol.ofParts ((roster.words word).filterMap (·[t]?)) space.alphabets) = .ok word := by
    intro word proper
    rw [follows.alphabets]
    exact Roster.join_words proper
  rw [toJoint]
  constructor
  · intro made
    split at made
    · cases made
    · rename_i matched
      rw [ne_eq, not_not, follows.agents.size] at matched
      obtain ⟨own, read, made⟩ := bind_eq_ok_iff.mp made
      obtain ⟨each, rfl⟩ := (follows.agents.own_words_eq_ok_iff matched).mp read
      obtain ⟨word, proper, rfl, same, back⟩ := Roster.exists_word_of_individual matched
        fun place agent number known given =>
          (each place (List.getElem?_eq_some_iff.mp known).1 agent number known given).2
      rw [← same, bind_of_eq_ok (joined proper)] at made
      obtain ⟨inside, found⟩ := follows.team.indexOf_eq_ok_iff.mp made
      exact ⟨inside, by rw [found], back index found⟩
  · intro given
    obtain ⟨inside, rfl, rfl⟩ := given
    have matched := roster.length_individual index
    have read := (follows.agents.own_words_eq_ok_iff matched).mpr
      ⟨fun place _ agent number known held => by
        obtain ⟨_, length, present⟩ := Roster.own_of_individual known held
        exact ⟨present.mpr inside, length⟩, rfl⟩
    rw [Roster.spelled_individual] at read
    rw [if_neg (not_not_intro (matched.trans follows.agents.size.symm)), bind_of_eq_ok read,
      bind_of_eq_ok (joined (roster.team.word_proper index))]
    exact follows.team.indexOf_eq_ok_iff.mpr ⟨inside, rfl⟩

end Follows

/-- The space after records of joint histories were asked for, one request after the other. -/
def holdAll (space : TeamSpace c) (requests : List Nat) : TeamSpace c :=
  requests.foldl (fun space index => (space.hold index).2) space

/-- The spaces follow a roster, and what is noted of joint histories is what it reads off them. -/
structure Charted (space : TeamSpace c) (roster : Roster c) : Prop where
  alphabets : space.alphabets = roster.alphabets
  agents : Seated space.agents roster
  team : space.team.Charted roster.team fun index individual => roster.individual index = individual

namespace Charted

theorem follows (charted : space.Charted roster) : space.Follows roster :=
  ⟨charted.alphabets, charted.agents, charted.team.follows⟩

/-- Noted or not, the agents' own histories are those of the roster. -/
theorem toIndividual_answers (charted : space.Charted roster) (index : Nat) :
    Answers (space.toIndividual index)
      (if index < roster.team.total then some (roster.individual index) else none) := by
  cases found : space.team.records.vertex? index with
  | some v =>
      obtain ⟨_, rfl, held⟩ := charted.team.record_of_vertex? found
      rw [if_pos (charted.team.range index v found), toIndividual, held]
      rfl
  | none =>
      rw [toIndividual, charted.team.record_of_absent found]
      by_cases inside : index < roster.team.total
      · have read : space.team.symbols index = .ok (roster.team.word index) :=
          charted.follows.team.symbols_eq_ok_iff.mpr ⟨inside, rfl⟩
        have split : (roster.team.word index).mapM (·.parts space.alphabets) =
            .ok ((roster.team.word index).map roster.parts) := by
          rw [charted.alphabets, mapM_eq_ok_iff, List.forall₂_map_right_iff, List.forall₂_same]
          exact fun symbol member =>
            Roster.parts_of_known (roster.team.word_proper index symbol member)
        simp only [inside, ↓reduceIte]
        rw [bind_of_eq_ok read, bind_of_eq_ok split]
        exact charted.agents.individual_eq_ok inside
      · simp only [inside, ↓reduceIte]
        exact ⟨_, rfl⟩

theorem toIndividual_eq_ok (charted : space.Charted roster) {index : Nat}
    (inside : index < roster.team.total) :
    space.toIndividual index = .ok (roster.individual index) := by
  have answers := charted.toIndividual_answers index
  rwa [if_pos inside] at answers

/-- What is noted agrees with what would be computed. -/
theorem eq_of_notedIndividual (charted : space.Charted roster) {index : Nat}
    {individual : List Nat} (noted : space.notedIndividual index = .ok individual) :
    index < roster.team.total ∧ roster.individual index = individual := by
  obtain ⟨record, held, answered⟩ := bind_eq_ok_iff.mp noted
  cases answered
  cases found : space.team.records.vertex? index with
  | some v =>
      obtain ⟨_, rfl, held'⟩ := charted.team.record_of_vertex? found
      rw [held] at held'
      cases held'
      exact ⟨charted.team.range index v found, rfl⟩
  | none =>
      rw [charted.team.record_of_absent found] at held
      cases held

/-- Making a record on demand, whatever its outcome, keeps the notes right. -/
theorem hold (charted : space.Charted roster) (index : Nat) :
    (space.hold index).2.Charted roster := by
  obtain ⟨outcome, longer, held, team, _⟩ := charted.team.hold charted.agents.inherited index
  rw [TeamSpace.hold, charted.alphabets, held]
  exact ⟨rfl, charted.agents, team⟩

theorem holdAll (charted : space.Charted roster) (requests : List Nat) :
    (space.holdAll requests).Charted roster := by
  induction requests generalizing space with
  | nil => exact charted
  | cons index requests ih => exact ih (charted.hold index)

end Charted

end TeamPlanning.TeamSpace
