import TeamPlanning.Proofs.Columns
import TeamPlanning.Proofs.History.Answers
import TeamPlanning.Proofs.JointSymbols

/-! # Joint histories and the agents' own

The numberings of a team belong together: the team's alphabet is the product of the agents', and all
share a horizon. A joint word then stands for one word per agent, all as long as itself, and every
choice of such words makes a joint word. -/

set_option autoImplicit false

namespace TeamPlanning

/-- The numberings of the agents' histories and of the joint ones. -/
structure Roster (c : HistoryKind) where
  agents : List (Numbering c)
  team : Numbering c
  planned : ∀ agent ∈ agents, agent.horizon = team.horizon
  joint : Alphabet.joint (agents.map (·.alphabet)) = .ok team.alphabet

namespace Roster

variable {c : HistoryKind} (roster : Roster c)

def alphabets : List Alphabet := roster.agents.map (·.alphabet)

def parts (symbol : Symbol c) : List (Symbol c) :=
  (symbol.parts roster.alphabets).toOption.getD []

def words (word : List (Symbol c)) : List (List (Symbol c)) :=
  (List.range roster.agents.length).map (column (word.map roster.parts))

/-- The numbers of the agents' own histories in a joint history. -/
def individual (index : Nat) : List Nat :=
  List.zipWith (·.number ·) roster.agents (roster.words (roster.team.word index))

def spelled (individual : List Nat) : List (List (Symbol c)) :=
  List.zipWith (·.word ·) roster.agents individual

variable {roster} {symbol : Symbol c} {word : List (Symbol c)} {place : Nat} {agent : Numbering c}

theorem parts_of_known (known : roster.team.Known symbol) :
    symbol.parts roster.alphabets = .ok (roster.parts symbol) := by
  obtain ⟨parts, split⟩ := (Symbol.within_joint_iff roster.joint).mp known
  rw [alphabets, Roster.parts, alphabets, split]
  rfl

theorem known_of_parts {parts : List (Symbol c)}
    (split : symbol.parts roster.alphabets = .ok parts) :
    roster.team.Known symbol ∧ roster.parts symbol = parts := by
  refine ⟨(Symbol.within_joint_iff roster.joint).mpr ⟨parts, split⟩, ?_⟩
  rw [Roster.parts, split]
  rfl

theorem parts_within (known : roster.team.Known symbol) :
    Symbol.PartsWithin (roster.parts symbol) roster.alphabets :=
  Symbol.partsWithin_of_parts (parts_of_known known)

theorem length_parts (known : roster.team.Known symbol) :
    (roster.parts symbol).length = roster.agents.length := by
  rw [(parts_within known).length_eq, alphabets, List.length_map]

theorem words_transposed (proper : roster.team.Proper word) :
    Transposed (word.map roster.parts) (roster.words word) := by
  refine transposed_columns fun row member => ?_
  obtain ⟨symbol, listed, rfl⟩ := List.mem_map.mp member
  exact length_parts (proper symbol listed)

theorem length_words (word : List (Symbol c)) :
    (roster.words word).length = roster.agents.length := by
  rw [words, List.length_map, List.length_range]

/-- Every agent's own word is as long as the joint one and lies within the agent's alphabet. -/
theorem words_proper (proper : roster.team.Proper word) {own : List (Symbol c)}
    (seated : roster.agents[place]? = some agent)
    (found : (roster.words word)[place]? = some own) :
    agent.Proper own ∧ own.length = word.length := by
  have transposed := words_transposed proper
  refine ⟨fun symbol member => ?_, ?_⟩
  · obtain ⟨stage, listed⟩ := List.mem_iff_getElem?.mp member
    have entry := transposed.entry stage place
    rw [found, Option.bind_some, listed, List.getElem?_map] at entry
    obtain ⟨row, joint, part⟩ := Option.bind_eq_some_iff.mp entry
    obtain ⟨whole, member, rfl⟩ := Option.map_eq_some_iff.mp joint
    have known := proper whole (List.mem_of_getElem? member)
    have within := (forall₂_iff_getElem?.mp (parts_within known)).2
    refine within place symbol agent.alphabet part ?_
    rw [alphabets, List.getElem?_map, seated]
    rfl
  · rw [transposed.high own (List.mem_of_getElem? found), List.length_map]

theorem getElem?_individual {index number : Nat} (seated : roster.agents[place]? = some agent) :
    (roster.individual index)[place]? = some number ↔
      ∃ own, (roster.words (roster.team.word index))[place]? = some own ∧
        agent.number own = number := by
  rw [individual, List.getElem?_zipWith]
  simp only [seated]
  cases (roster.words (roster.team.word index))[place]? <;> simp

theorem length_individual (roster : Roster c) (index : Nat) :
    (roster.individual index).length = roster.agents.length := by
  rw [individual, List.length_zipWith, length_words, Nat.min_self]

/-- The agents' own histories are of the stage of the joint one, and in range if it is. -/
theorem own_of_individual {index own : Nat} (seated : roster.agents[place]? = some agent)
    (held : (roster.individual index)[place]? = some own) :
    (roster.words (roster.team.word index))[place]? = some (agent.word own) ∧
      (agent.word own).length = (roster.team.word index).length ∧
        (own < agent.total ↔ index < roster.team.total) := by
  obtain ⟨word, found, rfl⟩ := (getElem?_individual seated).mp held
  obtain ⟨proper, length⟩ := words_proper (roster.team.word_proper index) seated found
  have planned := roster.planned agent (List.mem_of_getElem? seated)
  rw [Numbering.word_number proper]
  refine ⟨found, length, ?_⟩
  rw [Numbering.number_lt_total_iff proper, length, planned, Numbering.length_word_lt_iff]

theorem getElem?_spelled {individual : List Nat}
    (matched : individual.length = roster.agents.length)
    (seated : roster.agents[place]? = some agent) :
    ∃ number, individual[place]? = some number ∧
      (roster.spelled individual)[place]? = some (agent.word number) := by
  have inside := (List.getElem?_eq_some_iff.mp seated).1
  rw [← matched] at inside
  have given := List.getElem?_eq_getElem inside
  exact ⟨_, given, by rw [spelled, List.getElem?_zipWith, seated, given]⟩

/-- Lists with one entry for each agent are the same if they are agent by agent. -/
theorem ext_of_agents {α : Type} {left right : List α} (long : left.length = roster.agents.length)
    (long' : right.length = roster.agents.length)
    (each : ∀ (place : Nat) agent, roster.agents[place]? = some agent →
      left[place]? = right[place]?) : left = right := by
  refine List.ext_getElem? fun place => ?_
  cases seated : roster.agents[place]? with
  | none =>
      have beyond := List.getElem?_eq_none_iff.mp seated
      rw [List.getElem?_eq_none (by rwa [long]), List.getElem?_eq_none (by rwa [long'])]
  | some agent => exact each place agent seated

/-- The agents' own words are those of the numbers that are read off them. -/
theorem spelled_individual (index : Nat) :
    roster.spelled (roster.individual index) = roster.words (roster.team.word index) := by
  have long : (roster.spelled (roster.individual index)).length = roster.agents.length := by
    rw [spelled, List.length_zipWith, length_individual, Nat.min_self]
  refine ext_of_agents long (length_words _) fun place agent seated => ?_
  obtain ⟨number, held, found⟩ := getElem?_spelled (roster.length_individual index) seated
  rw [found, (own_of_individual seated held).1]

theorem individual_zero : roster.individual 0 = List.replicate roster.agents.length 0 := by
  rw [List.eq_replicate_iff]
  refine ⟨roster.length_individual 0, fun number member => ?_⟩
  obtain ⟨place, listed⟩ := List.mem_iff_getElem?.mp member
  have inside := (List.getElem?_eq_some_iff.mp listed).1
  rw [length_individual] at inside
  obtain ⟨own, found, rfl⟩ := (getElem?_individual (List.getElem?_eq_getElem inside)).mp listed
  rw [Numbering.word_zero, words, List.getElem?_map, List.getElem?_range inside] at found
  cases found
  rfl

/-- Extending a joint history extends every agent's own by the agent's part. -/
theorem individual_extend (known : roster.team.Known symbol) {index own : Nat} {part : Symbol c}
    (seated : roster.agents[place]? = some agent)
    (held : (roster.individual index)[place]? = some own)
    (given : (roster.parts symbol)[place]? = some part) :
    (roster.individual (roster.team.extend index symbol))[place]? =
      some (agent.extend own part) := by
  have inside : place < roster.agents.length := (List.getElem?_eq_some_iff.mp seated).1
  obtain ⟨word, found, rfl⟩ := (getElem?_individual seated).mp held
  rw [getElem?_individual seated]
  refine ⟨word ++ [part], ?_, Numbering.number_append_singleton word part⟩
  rw [words, List.getElem?_map, List.getElem?_range inside] at found ⊢
  cases found
  rw [Numbering.word_extend known, List.map_append, List.map_singleton, Option.map_some]
  simp [column, given]

/-- An agent's part of a symbol extends the agent's own history as long as the joint one can be
extended. -/
theorem extend_own (known : roster.team.Known symbol) {index own : Nat} {part : Symbol c}
    (seated : roster.agents[place]? = some agent)
    (held : (roster.individual index)[place]? = some own)
    (given : (roster.parts symbol)[place]? = some part) :
    agent.Known part ∧
      (agent.extend own part < agent.total ↔
        roster.team.extend index symbol < roster.team.total) := by
  obtain ⟨_, _, inside⟩ := own_of_individual seated (individual_extend known seated held given)
  have within := (forall₂_iff_getElem?.mp (parts_within known)).2
  refine ⟨within place part agent.alphabet given ?_, inside⟩
  rw [alphabets, List.getElem?_map, seated]
  rfl

/-! ## Joining -/

theorem join_words (proper : roster.team.Proper word) :
    (List.range word.length).mapM (fun stage =>
      Symbol.ofParts (column (roster.words word) stage) roster.alphabets) = .ok word := by
  rw [mapM_eq_ok_iff_getElem?, List.length_range]
  refine ⟨rfl, fun place stage symbol listed found => ?_⟩
  obtain ⟨_, rfl⟩ := List.getElem?_eq_some_iff.mp listed
  rw [List.getElem_range]
  have row : (word.map roster.parts)[place]? = some (roster.parts symbol) := by
    rw [List.getElem?_map, found]
    rfl
  rw [(words_transposed proper).symm.column_eq row]
  have known := proper symbol (List.mem_of_getElem? found)
  exact Symbol.ofParts_of_parts roster.joint (parts_of_known known)

/-- Own words of one length, one for each agent, are those of a joint word. -/
theorem exists_word {own : List (List (Symbol c))} (stage : Nat)
    (matched : own.length = roster.agents.length)
    (each : ∀ (place : Nat) agent word, roster.agents[place]? = some agent →
      own[place]? = some word → agent.Proper word ∧ word.length = stage) :
    ∃ word, roster.team.Proper word ∧ word.length = stage ∧ roster.words word = own := by
  have long : ∀ word ∈ own, word.length = stage := by
    intro word member
    obtain ⟨place, listed⟩ := List.mem_iff_getElem?.mp member
    have inside := (List.getElem?_eq_some_iff.mp listed).1
    rw [matched] at inside
    exact (each place _ word (List.getElem?_eq_getElem inside) listed).2
  have transposed := transposed_columns long
  have joined : ∀ t : Fin stage, ∃ symbol, roster.team.Known symbol ∧
      roster.parts symbol = column own t := by
    intro t
    have wide : ∀ word ∈ own, (t : Nat) < word.length := fun word member => by
      rw [long word member]
      exact t.isLt
    have within : Symbol.PartsWithin (column own t) roster.alphabets := by
      refine forall₂_iff_getElem?.mpr ⟨?_, fun place part alphabet listed seated => ?_⟩
      · rw [alphabets, List.length_map, length_column wide, matched]
      · rw [getElem?_column wide] at listed
        obtain ⟨word, found, member⟩ := Option.bind_eq_some_iff.mp listed
        rw [alphabets, List.getElem?_map] at seated
        obtain ⟨agent, present, rfl⟩ := Option.map_eq_some_iff.mp seated
        exact (each place agent word present found).1 part (List.mem_of_getElem? member)
    obtain ⟨symbol, split⟩ := Symbol.exists_parts within
    exact ⟨symbol, known_of_parts split⟩
  choose pick known split using joined
  refine ⟨List.ofFn pick, ?_, List.length_ofFn, ?_⟩
  · intro symbol member
    obtain ⟨t, rfl⟩ := List.mem_ofFn.mp member
    exact known t
  · have rows : (List.ofFn pick).map roster.parts = (List.range stage).map (column own) := by
      refine List.ext_getElem (by simp) fun place inside _ => ?_
      simp [split]
    rw [words, rows, ← matched]
    refine List.ext_getElem (by simp) fun place inside inside' => ?_
    rw [List.getElem_map, List.getElem_range]
    exact transposed.symm.column_eq (List.getElem?_eq_getElem inside')

/-- Own histories of one stage, one for each agent, are those of a joint word. -/
theorem exists_word_of_individual {individual : List Nat} {stage : Nat}
    (matched : individual.length = roster.agents.length)
    (staged : ∀ (place : Nat) agent number, roster.agents[place]? = some agent →
      individual[place]? = some number → (agent.word number).length = stage) :
    ∃ word, roster.team.Proper word ∧ word.length = stage ∧
      roster.words word = roster.spelled individual ∧
        ∀ index, roster.team.word index = word → roster.individual index = individual := by
  have long : (roster.spelled individual).length = roster.agents.length := by
    rw [spelled, List.length_zipWith, matched, Nat.min_self]
  obtain ⟨word, proper, length, same⟩ := exists_word stage long
    fun place agent word seated found => by
      obtain ⟨number, given, spelled⟩ := getElem?_spelled matched seated
      obtain rfl : agent.word number = word := Option.some.inj (spelled.symm.trans found)
      exact ⟨agent.word_proper number, staged place agent number seated given⟩
  refine ⟨word, proper, length, same, ?_⟩
  intro index same'
  subst same'
  refine ext_of_agents (length_individual roster index) matched fun place agent seated => ?_
  obtain ⟨number, given, spelled⟩ := getElem?_spelled matched seated
  rw [given, getElem?_individual seated, same]
  exact ⟨_, spelled, agent.number_word number⟩

end Roster

end TeamPlanning
