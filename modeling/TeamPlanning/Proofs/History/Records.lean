import TeamPlanning.Proofs.History.Answers
import TeamPlanning.Proofs.History.Chart

/-! # Spaces with charted records

A space is charted if its records are: each is found at the vertex of its history, and an eager
space lacks none. An eager space answers from its tree, one in closed form from its layout. Both
follow the numbering, so no question about histories tells them apart. -/

set_option autoImplicit false

namespace TeamPlanning

variable {c : HistoryKind} {ν : Type}

theorem Numbering.number_eq_foldl (numbering : Numbering c) (word : List (Symbol c)) :
    numbering.number word = word.foldl numbering.extend 0 := by
  induction word using List.reverseRecOn with
  | nil => rfl
  | append_singleton word symbol ih =>
      rw [number_append_singleton, ih, List.foldl_append]
      rfl

namespace HistorySpace

/-- The records held of a space: where they are filed and what they note. -/
structure Charted (space : HistorySpace c ν) (numbering : Numbering c) (noted : Nat → ν → Prop) :
    Prop where
  shaped : space.Shaped numbering
  chart : Chart numbering noted some space.trie space.records.vertex?
  range : ∀ index v, space.records.vertex? index = some v → index < numbering.total
  complete : space.eager = true → ∀ index, index < numbering.total →
    ∃ v, space.records.vertex? index = some v
  sparse : space.eager = false → ∃ vertices, space.records.vertices = .sparse vertices

namespace Charted

variable {space : HistorySpace c ν} {numbering : Numbering c} {noted : Nat → ν → Prop}
  {index v : Nat}

theorem imp {noted' : Nat → ν → Prop} (charted : space.Charted numbering noted)
    (weaken : ∀ index note, noted index note → noted' index note) :
    space.Charted numbering noted' :=
  { charted with chart := charted.chart.imp weaken }

theorem get?_of_vertex? (charted : space.Charted numbering noted)
    (found : space.records.vertex? index = some v) :
    ∃ note, noted index note ∧
      space.records.get? index = some ⟨numbering.history index, note⟩ := by
  obtain ⟨note, fact, held⟩ := charted.chart.entry index v found
  have value : space.records.trie.value v = .ok ⟨numbering.history index, note⟩ :=
    Trie.value_of_held? held
  refine ⟨note, fact, ?_⟩
  rw [NumberedTrie.get?, found, Option.bind_some, value]
  rfl

theorem record_of_vertex? (charted : space.Charted numbering noted)
    (found : space.records.vertex? index = some v) :
    ∃ note, noted index note ∧ space.record index = .ok ⟨numbering.history index, note⟩ := by
  obtain ⟨note, fact, held⟩ := charted.get?_of_vertex? found
  exact ⟨note, fact, by rw [HistorySpace.record, held]⟩

theorem lazy_of_absent (charted : space.Charted numbering noted)
    (absent : space.records.vertex? index = none) (inside : index < numbering.total) :
    space.eager = false := by
  rw [← Bool.not_eq_true]
  intro eager
  obtain ⟨v, found⟩ := charted.complete eager index inside
  rw [absent] at found
  cases found

/-- A history whose record is not held exists for all that, unless the space is eager. -/
theorem record_of_absent (charted : space.Charted numbering noted)
    (absent : space.records.vertex? index = none) :
    space.record index = .error (if index < numbering.total then .notHeld c index
      else .missing (.history c index numbering.total)) := by
  have nothing : space.records.get? index = none := by
    rw [NumberedTrie.get?, absent]
    rfl
  rw [HistorySpace.record, nothing, charted.shaped.total]
  by_cases inside : index < numbering.total
  · simp [charted.lazy_of_absent absent inside, inside]
  · simp [inside, Nat.le_of_not_lt inside]

theorem record_of_not_lt (charted : space.Charted numbering noted)
    (beyond : ¬ index < numbering.total) :
    space.record index = .error (.missing (.history c index numbering.total)) := by
  cases found : space.records.vertex? index with
  | some v => exact absurd (charted.range index v found) beyond
  | none => rw [charted.record_of_absent found, if_neg beyond]

/-! ## Eager spaces -/

section Eager

variable (charted : space.Charted numbering noted) (eager : space.eager = true)
include charted eager

theorem record_of_lt (inside : index < numbering.total) :
    ∃ note, noted index note ∧ space.record index = .ok ⟨numbering.history index, note⟩ := by
  obtain ⟨v, found⟩ := charted.complete eager index inside
  exact charted.record_of_vertex? found

theorem stageOf_answers (index : Nat) :
    Answers (space.stageOf index) (numbering.stage? index) := by
  rw [HistorySpace.stageOf, if_pos eager]
  by_cases inside : index < numbering.total
  · obtain ⟨note, _, held⟩ := charted.record_of_lt eager inside
    rw [Numbering.stage?_of_lt inside, Answers, bind_of_eq_ok held, Numbering.length_history]
    rfl
  · rw [Numbering.stage?_of_not_lt inside]
    exact ⟨_, bind_of_eq_error (charted.record_of_not_lt inside) _⟩

/-- Walking back lists the symbols from the latest on. -/
theorem walkBack_eq (inside : index < numbering.total) (note : ν) {steps : Nat}
    (enough : (numbering.word index).length ≤ steps) :
    space.walkBack steps ⟨numbering.history index, note⟩ =
      .ok (numbering.word index).reverse := by
  induction index using numbering.extend_induction generalizing note steps with
  | empty =>
      rw [Numbering.word_zero]
      cases steps <;> rfl
  | extend index symbol known ih =>
      rw [Numbering.word_extend known, List.length_append] at enough
      obtain ⟨steps, rfl⟩ : ∃ fewer, steps = fewer + 1 :=
        Nat.exists_eq_add_of_le' (Nat.le_trans (Nat.le_add_left 1 _) enough)
      have present := Nat.lt_trans (numbering.lt_extend index symbol) inside
      obtain ⟨earlier, _, held⟩ := charted.record_of_lt eager present
      have walked := ih present earlier (Nat.le_of_succ_le_succ enough)
      rw [Numbering.history_extend known, Numbering.word_extend known, List.reverse_append]
      simp only [walkBack, History.extend]
      rw [bind_of_eq_ok held, bind_of_eq_ok walked]
      rfl

theorem symbols_answers (index : Nat) : Answers (space.symbols index) (numbering.word? index) := by
  rw [HistorySpace.symbols, if_pos eager]
  by_cases inside : index < numbering.total
  · obtain ⟨note, _, held⟩ := charted.record_of_lt eager inside
    have walked := charted.walkBack_eq eager inside note
      (Nat.le_of_eq (Numbering.length_history index).symm)
    rw [Numbering.word?_of_lt inside, Answers, bind_of_eq_ok held, bind_of_eq_ok walked,
      List.reverse_reverse]
    rfl
  · rw [Numbering.word?_of_not_lt inside]
    exact ⟨_, bind_of_eq_error (charted.record_of_not_lt inside) _⟩

end Eager

/-- The tree leads from a history to an extension of it by the letter of the symbol. -/
theorem successor_answers (charted : space.Charted numbering noted)
    (found : space.records.vertex? index = some v) {symbol : Symbol c}
    (known : numbering.Known symbol) :
    Answers (space.trie.successor v symbol.letter)
      (space.records.vertex? (numbering.extend index symbol)) := by
  obtain ⟨note, _, held⟩ := charted.chart.entry index v found
  have followed := Trie.successor_answers held symbol.letter
  rwa [charted.chart.edge index symbol v found known] at followed

theorem index_eq (charted : space.Charted numbering noted)
    (found : space.records.vertex? index = some v) : space.trie.index v = .ok index := by
  obtain ⟨note, _, held⟩ := charted.chart.entry index v found
  exact Trie.index_of_held? held

/-- No path leads past a history that is not held. -/
theorem vertex?_foldl_of_absent (charted : space.Charted numbering noted) {word : List (Symbol c)}
    (proper : numbering.Proper word) (absent : space.records.vertex? index = none) :
    space.records.vertex? (word.foldl numbering.extend index) = none := by
  induction word generalizing index with
  | nil => exact absent
  | cons symbol word ih =>
      obtain ⟨known, proper⟩ := List.forall_mem_cons.mp proper
      exact ih proper (charted.chart.closed index symbol known absent)

theorem descendFrom_answers (charted : space.Charted numbering noted) {word : List (Symbol c)}
    (proper : numbering.Proper word) (found : space.records.vertex? index = some v) :
    Answers (space.descendFrom v word)
      (space.records.vertex? (word.foldl numbering.extend index)) := by
  induction word generalizing index v with
  | nil =>
      rw [List.foldl_nil, found]
      exact rfl
  | cons symbol word ih =>
      obtain ⟨known, proper⟩ := List.forall_mem_cons.mp proper
      have step := charted.successor_answers found known
      rw [descendFrom, List.foldlM_cons, List.foldl_cons]
      cases next : space.records.vertex? (numbering.extend index symbol) with
      | some child =>
          rw [next] at step
          rw [bind_of_eq_ok step]
          exact ih proper next
      | none =>
          rw [next] at step
          obtain ⟨cause, failed⟩ := step
          rw [bind_of_eq_error failed, charted.vertex?_foldl_of_absent proper next]
          exact ⟨cause, rfl⟩

theorem indexOf_answers (charted : space.Charted numbering noted) (eager : space.eager = true)
    (word : List (Symbol c)) : Answers (space.indexOf word) (numbering.number? word) := by
  have digits := numbering.digits_answers word
  rw [HistorySpace.indexOf, charted.shaped.alphabet]
  by_cases proper : numbering.Proper word
  · rw [if_pos proper] at digits
    rw [bind_of_eq_ok digits, if_pos eager]
    have descended := charted.descendFrom_answers proper charted.chart.root
    rw [← numbering.number_eq_foldl] at descended
    have inside_iff := Numbering.number_lt_total_iff proper
    by_cases short : word.length < numbering.horizon
    · obtain ⟨v, found⟩ := charted.complete eager _ (inside_iff.mpr short)
      rw [found] at descended
      rw [Numbering.number?_of_proper proper short, Answers, bind_of_eq_ok descended]
      exact charted.index_eq found
    · rw [Numbering.number?_of_not_lt short]
      cases found : space.records.vertex? (numbering.number word) with
      | some v => exact absurd (inside_iff.mp (charted.range _ v found)) short
      | none =>
          rw [found] at descended
          obtain ⟨cause, failed⟩ := descended
          exact ⟨cause, bind_of_eq_error failed _⟩
  · rw [if_neg proper] at digits
    obtain ⟨cause, failed⟩ := digits
    rw [bind_of_eq_error failed, Numbering.number?_of_not_proper proper]
    exact ⟨cause, rfl⟩

/-- Held or not, records never change an answer. -/
theorem follows (charted : space.Charted numbering noted) : space.Follows numbering := by
  cases eager : space.eager with
  | false => exact charted.shaped.follows_of_lazy eager
  | true =>
      refine ⟨charted.shaped, charted.stageOf_answers eager, ?_, charted.symbols_answers eager,
        charted.indexOf_answers eager⟩
      refine charted.shaped.successor_answers (charted.stageOf_answers eager) ?_
      intro index symbol known inside
      have present := Nat.lt_trans (numbering.lt_extend index symbol) inside
      obtain ⟨v, found⟩ := charted.complete eager index present
      obtain ⟨child, reached⟩ := charted.complete eager _ inside
      have step := charted.successor_answers found known
      rw [reached] at step
      rw [if_pos eager, found]
      exact (bind_of_eq_ok step _).trans (charted.index_eq reached)

theorem closedForm (numbering : Numbering c) (planned : 0 < numbering.horizon)
    (noted : Nat → ν → Prop) {note : ν} (first : noted 0 note) :
    ∃ space : HistorySpace c ν,
      HistorySpace.closedForm numbering.alphabet numbering.horizon note = .ok space ∧
        space.eager = false ∧ space.Charted numbering noted := by
  obtain ⟨records, made, created⟩ := closedForm_eq_ok numbering note
  have start := Chart.singleton numbering note first
  have found : (fun index : Nat => if index = 0 then some Trie.root else none) 0 =
      some Trie.root := rfl
  obtain ⟨after, assigned, chart⟩ := start.assign found rfl
  rw [NumberedTrie.sparse, bind_of_eq_ok assigned] at made
  cases made
  have spot : NumberedTrie.vertex? ⟨after, .sparse [(0, Trie.root)]⟩ =
      fun index => if index = 0 then some Trie.root else none := by
    funext index
    simp [NumberedTrie.vertex?, Sparse.get?, eq_comm]
  refine ⟨_, created, rfl, ⟨rfl, rfl, rfl⟩, ?_, ?_, ?_, fun _ => ⟨_, rfl⟩⟩
  · rw [HistorySpace.trie, spot]
    refine chart.congr_stamp fun index v found => ?_
    obtain ⟨rfl, _⟩ := Option.ite_none_right_eq_some.mp found
    exact Function.update_self ..
  · intro index v found
    rw [spot] at found
    obtain ⟨rfl, _⟩ := Option.ite_none_right_eq_some.mp found
    exact Nat.lt_of_lt_of_le planned numbering.horizon_le_total
  · intro eager
    cases eager

end Charted

end HistorySpace

end TeamPlanning
