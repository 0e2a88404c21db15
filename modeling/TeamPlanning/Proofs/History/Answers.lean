import TeamPlanning.History.Space
import TeamPlanning.Proofs.History.Numbering
import TeamPlanning.Proofs.Stages

/-! # Spaces that follow the numbering

What a history space should answer, and the proof that the closed form does: the start of a stage
plus the value of the digits is the number of the word. -/

set_option autoImplicit false

namespace TeamPlanning

namespace Numbering

variable {c : HistoryKind} (numbering : Numbering c)

def stage? (index : Nat) : Option Nat :=
  if index < numbering.total then some (numbering.word index).length else none

/-- The number of an extension that is short enough. -/
def successor? (index : Nat) (symbol : Symbol c) : Option Nat :=
  if numbering.Known symbol ∧ numbering.extend index symbol < numbering.total then
    some (numbering.extend index symbol)
  else none

def word? (index : Nat) : Option (List (Symbol c)) :=
  if index < numbering.total then some (numbering.word index) else none

/-- The number of a word that is short enough. -/
def number? (word : List (Symbol c)) : Option Nat :=
  if numbering.Proper word ∧ word.length < numbering.horizon then some (numbering.number word)
  else none

variable {numbering} {index : Nat} {symbol : Symbol c} {word : List (Symbol c)}

theorem stage?_of_lt (inside : index < numbering.total) :
    numbering.stage? index = some (numbering.word index).length := if_pos inside

theorem stage?_of_not_lt (beyond : ¬ index < numbering.total) : numbering.stage? index = none :=
  if_neg beyond

theorem successor?_of_lt (known : numbering.Known symbol)
    (inside : numbering.extend index symbol < numbering.total) :
    numbering.successor? index symbol = some (numbering.extend index symbol) :=
  if_pos ⟨known, inside⟩

theorem successor?_of_not_known (foreign : ¬ numbering.Known symbol) :
    numbering.successor? index symbol = none := if_neg fun both => foreign both.1

theorem successor?_of_not_lt (beyond : ¬ numbering.extend index symbol < numbering.total) :
    numbering.successor? index symbol = none := if_neg fun both => beyond both.2

theorem word?_of_lt (inside : index < numbering.total) :
    numbering.word? index = some (numbering.word index) := if_pos inside

theorem word?_of_not_lt (beyond : ¬ index < numbering.total) : numbering.word? index = none :=
  if_neg beyond

theorem number?_of_proper (proper : numbering.Proper word)
    (short : word.length < numbering.horizon) :
    numbering.number? word = some (numbering.number word) := if_pos ⟨proper, short⟩

theorem number?_of_not_proper (foreign : ¬ numbering.Proper word) :
    numbering.number? word = none := if_neg fun both => foreign both.1

theorem number?_of_not_lt (long : ¬ word.length < numbering.horizon) :
    numbering.number? word = none := if_neg fun both => long both.2

theorem stage?_eq_some_iff {stage : Nat} : numbering.stage? index = some stage ↔
    index < numbering.total ∧ (numbering.word index).length = stage := by
  simp [stage?]

theorem successor?_eq_some_iff {next : Nat} : numbering.successor? index symbol = some next ↔
    (numbering.Known symbol ∧ numbering.extend index symbol < numbering.total) ∧
      numbering.extend index symbol = next := by
  simp [successor?]

theorem word?_eq_some_iff :
    numbering.word? index = some word ↔ index < numbering.total ∧ numbering.word index = word := by
  simp [word?]

theorem number?_eq_some_iff :
    numbering.number? word = some index ↔
      index < numbering.total ∧ numbering.word index = word := by
  rw [← proper_number_iff]
  simp [number?, and_assoc]

variable (numbering)

theorem digit_answers (symbol : Symbol c) :
    Answers (symbol.validDigit numbering.alphabet)
      (if numbering.Known symbol then some (symbol.digit numbering.alphabet) else none) :=
  symbol.validDigit_answers numbering.alphabet

theorem digits_answers (word : List (Symbol c)) :
    Answers (word.mapM (·.validDigit numbering.alphabet))
      (if numbering.Proper word then some (word.map (·.digit numbering.alphabet)) else none) :=
  Symbol.mapM_validDigit_answers word numbering.alphabet

end Numbering

namespace HistorySpace

variable {c : HistoryKind} {ν : Type} {space : HistorySpace c ν} {numbering : Numbering c}

/-- The space is laid out for the histories of a numbering. -/
structure Shaped (space : HistorySpace c ν) (numbering : Numbering c) : Prop where
  alphabet : space.alphabet = numbering.alphabet
  base : space.base = numbering.base
  layout : space.layout = StageLayout.closed numbering.base numbering.horizon

/-- Every question about the histories of a space has the answer of the numbering. -/
structure Follows (space : HistorySpace c ν) (numbering : Numbering c) : Prop where
  shaped : space.Shaped numbering
  stageOf : ∀ index, Answers (space.stageOf index) (numbering.stage? index)
  successor : ∀ index symbol,
    Answers (space.successor index symbol) (numbering.successor? index symbol)
  symbols : ∀ index, Answers (space.symbols index) (numbering.word? index)
  indexOf : ∀ word, Answers (space.indexOf word) (numbering.number? word)

namespace Follows

variable {index : Nat} {symbol : Symbol c} {word : List (Symbol c)}

theorem stageOf_eq_ok_iff (follows : space.Follows numbering) {stage : Nat} :
    space.stageOf index = .ok stage ↔
      index < numbering.total ∧ (numbering.word index).length = stage :=
  (follows.stageOf index).eq_ok_iff.trans Numbering.stage?_eq_some_iff

theorem successor_eq_ok_iff (follows : space.Follows numbering) {next : Nat} :
    space.successor index symbol = .ok next ↔
      (numbering.Known symbol ∧ numbering.extend index symbol < numbering.total) ∧
        numbering.extend index symbol = next :=
  (follows.successor index symbol).eq_ok_iff.trans Numbering.successor?_eq_some_iff

theorem symbols_eq_ok_iff (follows : space.Follows numbering) :
    space.symbols index = .ok word ↔ index < numbering.total ∧ numbering.word index = word :=
  (follows.symbols index).eq_ok_iff.trans Numbering.word?_eq_some_iff

theorem indexOf_eq_ok_iff (follows : space.Follows numbering) :
    space.indexOf word = .ok index ↔ index < numbering.total ∧ numbering.word index = word :=
  (follows.indexOf word).eq_ok_iff.trans Numbering.number?_eq_some_iff

end Follows

namespace Shaped

theorem total (shaped : space.Shaped numbering) : space.total = numbering.total := by
  rw [HistorySpace.total, shaped.layout, StageLayout.total_closed numbering.fits]
  rfl

theorem stages (shaped : space.Shaped numbering) : space.layout.stages = numbering.horizon := by
  rw [shaped.layout, StageLayout.stages_closed]

theorem layout_stageOf_answers (shaped : space.Shaped numbering) (index : Nat) :
    Answers (space.layout.stageOf index) (numbering.stage? index) := by
  rw [shaped.layout]
  by_cases inside : index < numbering.total
  · rw [Numbering.stage?_of_lt inside, Answers,
      StageLayout.stageOf_closed numbering.inhabited numbering.fits inside, Numbering.length_spell]
  · rw [Numbering.stage?_of_not_lt inside]
    exact StageLayout.stageOf_closed_beyond numbering.fits (Nat.le_of_not_lt inside)

theorem wordOf_answers (shaped : space.Shaped numbering) (index : Nat) :
    Answers (space.wordOf index) (numbering.word? index) := by
  have stage := shaped.layout_stageOf_answers index
  by_cases inside : index < numbering.total
  · rw [Numbering.stage?_of_lt inside] at stage
    have short := (Numbering.length_word_lt_iff index).mpr inside
    have small := Nat.lt_trans inside numbering.total_lt_wordBound
    have placed := Shortlex.number_eq_first_add numbering.base
      (Shortlex.spell numbering.base index)
    rw [Shortlex.number_spell, Numbering.length_spell] at placed
    have rest : Word.sub index (Shortlex.first numbering.base (numbering.word index).length) =
        Radix.value (Radix.places numbering.base (Shortlex.spell numbering.base index)) := by
      rw [Word.sub_of_le small (by omega)]
      omega
    have decoded : Radix.decode
        (Word.sub index (Shortlex.first numbering.base (numbering.word index).length))
        (numbering.word index).length numbering.base =
          .ok (Shortlex.spell numbering.base index) := by
      rw [rest]
      exact Radix.decode_eq_ok_iff.mpr ⟨short.trans numbering.stored,
        Numbering.length_spell index, Shortlex.spell_below numbering.inhabited index, rfl⟩
    rw [Numbering.word?_of_lt inside, Answers, wordOf, bind_of_eq_ok stage, shaped.layout,
      bind_of_eq_ok (StageLayout.startAt_closed short), shaped.base, bind_of_eq_ok decoded,
      shaped.alphabet]
    rfl
  · rw [Numbering.stage?_of_not_lt inside] at stage
    obtain ⟨cause, failed⟩ := stage
    rw [Numbering.word?_of_not_lt inside]
    exact ⟨cause, bind_of_eq_error failed _⟩

/-- The number of an extension is found without leaving the range. -/
theorem successorNumber_eq (shaped : space.Shaped numbering) {index : Nat} {symbol : Symbol c}
    (known : numbering.Known symbol) (inside : numbering.extend index symbol < numbering.total) :
    space.successorNumber index (numbering.word index).length (symbol.digit space.alphabet) =
      .ok (numbering.extend index symbol) := by
  have short := (Numbering.extend_lt_total_iff known index).mp inside
  have small := Nat.lt_trans inside numbering.total_lt_wordBound
  have below := Nat.lt_trans (numbering.lt_extend index symbol) small
  have started : Shortlex.first numbering.base (numbering.word index).length ≤ index := by
    have reached := Shortlex.first_le_number numbering.base
      (Shortlex.spell numbering.base index)
    rwa [Shortlex.number_spell, Numbering.length_spell] at reached
  have next : Shortlex.first numbering.base ((numbering.word index).length + 1) =
      Shortlex.first numbering.base (numbering.word index).length * numbering.base + 1 := rfl
  have shifted : (index - Shortlex.first numbering.base (numbering.word index).length) *
      numbering.base + Shortlex.first numbering.base (numbering.word index).length *
        numbering.base = index * numbering.base := by
    rw [← Nat.add_mul, Nat.sub_add_cancel started]
  have expanded : numbering.extend index symbol =
      index * numbering.base + symbol.digit numbering.alphabet + 1 := rfl
  have product : Bounded.mul
      (Word.sub index (Shortlex.first numbering.base (numbering.word index).length))
      numbering.base =
        .ok ((index - Shortlex.first numbering.base (numbering.word index).length) *
          numbering.base) := by
    rw [Word.sub_of_le below started]
    exact Bounded.mul_eq_ok_iff.mpr ⟨by omega, rfl⟩
  rw [successorNumber, shaped.layout,
    bind_of_eq_ok (StageLayout.startAt_closed (Nat.lt_of_succ_lt short)),
    bind_of_eq_ok (StageLayout.startAt_closed short), shaped.base, bind_of_eq_ok product,
    shaped.alphabet, bind_of_eq_ok (Bounded.add_eq_ok_iff.mpr ⟨by omega, rfl⟩)]
  exact Bounded.add_eq_ok_iff.mpr ⟨by omega, by omega⟩

/-- A successor is looked up only for a symbol of the alphabet and a history that is not in the last
stage; `lookup` stands for how the space then finds it. -/
theorem successor_answers (shaped : space.Shaped numbering)
    (stageOf : ∀ index, Answers (space.stageOf index) (numbering.stage? index))
    (lookup : ∀ index symbol, numbering.Known symbol →
      numbering.extend index symbol < numbering.total →
      (if space.eager then
        match space.records.vertex? index with
        | some v => do space.trie.index (← space.trie.successor v symbol.letter)
        | none => throw (.missing (.historyVertex c index))
      else space.successorNumber index (numbering.word index).length
        (symbol.digit space.alphabet)) = .ok (numbering.extend index symbol))
    (index : Nat) (symbol : Symbol c) :
    Answers (space.successor index symbol) (numbering.successor? index symbol) := by
  have digit := numbering.digit_answers symbol
  have stage := stageOf index
  rw [HistorySpace.successor, shaped.alphabet, shaped.stages]
  by_cases known : numbering.Known symbol
  · rw [if_pos known] at digit
    rw [bind_of_eq_ok digit]
    by_cases present : index < numbering.total
    · have last := Numbering.extend_lt_total_iff known index
      rw [Numbering.stage?_of_lt present] at stage
      rw [bind_of_eq_ok stage]
      by_cases inside : numbering.extend index symbol < numbering.total
      · have found := lookup index symbol known inside
        rw [shaped.alphabet] at found
        rw [Numbering.successor?_of_lt known inside, if_neg (by omega)]
        exact found
      · rw [Numbering.successor?_of_not_lt inside, if_pos (by omega)]
        exact ⟨_, rfl⟩
    · have later := numbering.lt_extend index symbol
      rw [Numbering.stage?_of_not_lt present] at stage
      obtain ⟨cause, failed⟩ := stage
      rw [bind_of_eq_error failed, Numbering.successor?_of_not_lt (by omega)]
      exact ⟨cause, rfl⟩
  · rw [if_neg known] at digit
    obtain ⟨cause, failed⟩ := digit
    rw [bind_of_eq_error failed, Numbering.successor?_of_not_known known]
    exact ⟨cause, rfl⟩

end Shaped

/-! ## The closed form -/

variable {alphabet : Alphabet} {horizon : Nat} {note : ν}

theorem closedForm_eq_ok (numbering : Numbering c) (note : ν) :
    ∃ records, NumberedTrie.sparse (Record.start (c := c) note) = .ok records ∧
      closedForm numbering.alphabet numbering.horizon note =
        .ok ⟨numbering.alphabet, numbering.base,
          StageLayout.closed numbering.base numbering.horizon, records, false⟩ := by
  refine ⟨_, rfl, ?_⟩
  rw [closedForm, bind_of_eq_ok numbering.based,
    bind_of_eq_ok (StageLayout.geometric_eq_ok_iff.mpr
      ⟨numbering.stored, numbering.fits, rfl⟩)]
  rfl

theorem Shaped.follows_of_lazy (shaped : space.Shaped numbering) (lazy : space.eager = false) :
    space.Follows numbering := by
  have stageOf : ∀ index, Answers (space.stageOf index) (numbering.stage? index) := by
    intro index
    rw [HistorySpace.stageOf, lazy]
    exact shaped.layout_stageOf_answers index
  refine ⟨shaped, stageOf, ?_, ?_, ?_⟩
  · refine shaped.successor_answers stageOf fun index symbol known inside => ?_
    rw [lazy]
    exact shaped.successorNumber_eq known inside
  · intro index
    rw [HistorySpace.symbols, lazy]
    exact shaped.wordOf_answers index
  · intro word
    have digits := numbering.digits_answers word
    rw [HistorySpace.indexOf, lazy, shaped.alphabet]
    by_cases proper : numbering.Proper word
    · rw [if_pos proper] at digits
      rw [bind_of_eq_ok digits, shaped.layout]
      simp only [Bool.false_eq_true, ↓reduceIte]
      by_cases short : word.length < numbering.horizon
      · have inside := (Numbering.number_lt_total_iff proper).mpr short
        have small := Nat.lt_trans inside numbering.total_lt_wordBound
        have placed := Shortlex.number_eq_first_add numbering.base
          (word.map (·.digit numbering.alphabet))
        have whole : numbering.number word =
            Shortlex.number numbering.base (word.map (·.digit numbering.alphabet)) := rfl
        rw [List.length_map] at placed
        rw [Numbering.number?_of_proper proper short,
          bind_of_eq_ok (StageLayout.startAt_closed short), shaped.base,
          bind_of_eq_ok (Radix.encode_eq_ok_iff.mpr ⟨proper.digits_below, by omega, rfl⟩)]
        exact Bounded.add_eq_ok_iff.mpr ⟨by omega, by omega⟩
      · obtain ⟨cause, failed⟩ := StageLayout.startAt_closed_beyond numbering.base
          (Nat.le_of_not_lt short)
        rw [Numbering.number?_of_not_lt short]
        exact ⟨cause, bind_of_eq_error failed _⟩
    · rw [if_neg proper] at digits
      obtain ⟨cause, failed⟩ := digits
      rw [Numbering.number?_of_not_proper proper]
      exact ⟨cause, bind_of_eq_error failed _⟩

end HistorySpace

end TeamPlanning
