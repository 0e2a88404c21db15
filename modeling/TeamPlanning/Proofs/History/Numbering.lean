import TeamPlanning.History.Basic
import TeamPlanning.Proofs.Shortlex
import TeamPlanning.Proofs.Symbols

/-! # The numbering of histories

A history is a word of symbols within an alphabet with fewer symbols than the horizon. This module
says which number each word has and which record belongs to each number, without reference to how a
history space finds them. -/

set_option autoImplicit false

namespace TeamPlanning

/-- What a numbering needs: an alphabet with symbols of the kind, and a horizon for which every
history has a number in range and an array has room for the stages. -/
structure Numbering (c : HistoryKind) where
  alphabet : Alphabet
  base : Nat
  horizon : Nat
  based : c.base alphabet = .ok base
  inhabited : 0 < base
  fits : Shortlex.first base horizon < wordBound
  stored : horizon < capacity

namespace Numbering

variable {c : HistoryKind} (numbering : Numbering c)

def total : Nat := Shortlex.first numbering.base numbering.horizon

def number (word : List (Symbol c)) : Nat :=
  Shortlex.number numbering.base (word.map (·.digit numbering.alphabet))

def word (index : Nat) : List (Symbol c) :=
  (Shortlex.spell numbering.base index).map (Symbol.ofDigit c · numbering.alphabet)

/-- The number of a history with a symbol appended. -/
def extend (index : Nat) (symbol : Symbol c) : Nat :=
  index * numbering.base + symbol.digit numbering.alphabet + 1

def Known (symbol : Symbol c) : Prop := symbol.within numbering.alphabet = true

/-- All symbols of the word lie within the alphabet. -/
def Proper (word : List (Symbol c)) : Prop :=
  ∀ symbol ∈ word, symbol.within numbering.alphabet = true

/-- What the record of a history says about it. -/
def history : Nat → History c
  | 0 => .empty
  | index + 1 =>
      .extension (index / numbering.base)
        (Symbol.ofDigit c (index % numbering.base) numbering.alphabet)
        (numbering.word (index / numbering.base)).length

instance (symbol : Symbol c) : Decidable (numbering.Known symbol) :=
  inferInstanceAs (Decidable (symbol.within numbering.alphabet = true))

instance (word : List (Symbol c)) : Decidable (numbering.Proper word) :=
  inferInstanceAs (Decidable (∀ symbol ∈ word, symbol.within numbering.alphabet = true))

variable {numbering} {word : List (Symbol c)} {symbol : Symbol c} {index : Nat}

theorem Known.digit_lt (known : numbering.Known symbol) :
    symbol.digit numbering.alphabet < numbering.base :=
  Symbol.digit_lt_base numbering.based known

theorem known_ofDigit (numbering : Numbering c) {digit : Nat} (below : digit < numbering.base) :
    numbering.Known (Symbol.ofDigit c digit numbering.alphabet) :=
  Symbol.within_ofDigit numbering.based below

theorem extend_ofDigit (numbering : Numbering c) {digit : Nat} (below : digit < numbering.base)
    (index : Nat) :
    numbering.extend index (Symbol.ofDigit c digit numbering.alphabet) =
      index * numbering.base + digit + 1 := by
  rw [extend, Symbol.digit_ofDigit numbering.based below]

theorem proper_append_singleton :
    numbering.Proper (word ++ [symbol]) ↔ numbering.Proper word ∧ numbering.Known symbol := by
  simp [Proper, Known, or_imp, forall_and]

theorem Proper.digits_below (proper : numbering.Proper word) :
    ∀ digit ∈ word.map (·.digit numbering.alphabet), digit < numbering.base := by
  intro digit member
  obtain ⟨symbol, listed, rfl⟩ := List.mem_map.mp member
  exact Known.digit_lt (proper symbol listed)

@[simp] theorem number_nil : numbering.number [] = 0 := rfl

@[simp] theorem number_append_singleton (word : List (Symbol c)) (symbol : Symbol c) :
    numbering.number (word ++ [symbol]) = numbering.extend (numbering.number word) symbol := by
  simp [number, extend]

@[simp] theorem word_zero : numbering.word 0 = [] := by
  simp [Numbering.word]

theorem word_extend (known : numbering.Known symbol) (index : Nat) :
    numbering.word (numbering.extend index symbol) = numbering.word index ++ [symbol] := by
  rw [extend, Numbering.word, Shortlex.spell_extend known.digit_lt, List.map_append,
    List.map_singleton, Symbol.ofDigit_digit numbering.based known]
  rfl

theorem extend_injective {symbol' : Symbol c} {index' : Nat} (known : numbering.Known symbol)
    (known' : numbering.Known symbol')
    (same : numbering.extend index symbol = numbering.extend index' symbol') :
    index = index' ∧ symbol = symbol' := by
  obtain ⟨equal, digits⟩ := Shortlex.extend_injective known.digit_lt known'.digit_lt same
  refine ⟨equal, ?_⟩
  rw [← Symbol.ofDigit_digit numbering.based known, digits,
    Symbol.ofDigit_digit numbering.based known']

/-- Every history but the empty one extends another. -/
theorem extend_induction (numbering : Numbering c) {motive : Nat → Prop} (empty : motive 0)
    (extend : ∀ index symbol, numbering.Known symbol → motive index →
      motive (numbering.extend index symbol))
    (index : Nat) : motive index := by
  induction index using Shortlex.extend_induction numbering.inhabited with
  | empty => exact empty
  | extend index digit below ih =>
      have extended := extend index _ (numbering.known_ofDigit below) ih
      rwa [numbering.extend_ofDigit below] at extended

theorem word_proper (numbering : Numbering c) (index : Nat) :
    numbering.Proper (numbering.word index) := by
  induction index using numbering.extend_induction with
  | empty => simp [Proper]
  | extend index symbol known ih =>
      rw [word_extend known]
      exact proper_append_singleton.mpr ⟨ih, known⟩

theorem number_word (numbering : Numbering c) (index : Nat) :
    numbering.number (numbering.word index) = index := by
  induction index using numbering.extend_induction with
  | empty => simp
  | extend index symbol known ih => rw [word_extend known, number_append_singleton, ih]

theorem word_number (proper : numbering.Proper word) :
    numbering.word (numbering.number word) = word := by
  induction word using List.reverseRecOn with
  | nil => simp
  | append_singleton word symbol ih =>
      obtain ⟨proper, known⟩ := proper_append_singleton.mp proper
      rw [number_append_singleton, word_extend known, ih proper]

theorem number_lt_total_iff (proper : numbering.Proper word) :
    numbering.number word < numbering.total ↔ word.length < numbering.horizon := by
  have short := Shortlex.number_lt_first_iff proper.digits_below numbering.horizon
  rwa [List.length_map] at short

/-- Numbers in range and words that are short enough are two sides of one thing. -/
theorem proper_number_iff :
    (numbering.Proper word ∧ word.length < numbering.horizon ∧ numbering.number word = index) ↔
      index < numbering.total ∧ numbering.word index = word := by
  constructor
  · intro given
    obtain ⟨proper, short, rfl⟩ := given
    exact ⟨(number_lt_total_iff proper).mpr short, word_number proper⟩
  · intro given
    obtain ⟨inside, rfl⟩ := given
    refine ⟨numbering.word_proper index, ?_, numbering.number_word index⟩
    rwa [← number_lt_total_iff (numbering.word_proper index), number_word]

theorem length_word_lt_iff (index : Nat) :
    (numbering.word index).length < numbering.horizon ↔ index < numbering.total := by
  rw [← number_lt_total_iff (numbering.word_proper index), number_word]

theorem extend_lt_total_iff (known : numbering.Known symbol) (index : Nat) :
    numbering.extend index symbol < numbering.total ↔
      (numbering.word index).length + 1 < numbering.horizon := by
  rw [← length_word_lt_iff, word_extend known, List.length_append, List.length_singleton]

theorem lt_extend (numbering : Numbering c) (index : Nat) (symbol : Symbol c) :
    index < numbering.extend index symbol := by
  have shifted : index * 1 ≤ index * numbering.base := Nat.mul_le_mul_left _ numbering.inhabited
  rw [extend]
  omega

/-- Shorter histories come first, and those of one length in the order of their digits. -/
theorem lt_iff {later : Nat} :
    index < later ↔ (numbering.word index).length < (numbering.word later).length ∨
      (numbering.word index).length = (numbering.word later).length ∧
        (numbering.word index).map (·.digit numbering.alphabet) <
          (numbering.word later).map (·.digit numbering.alphabet) := by
  have ordered := Shortlex.number_lt_number_iff (numbering.word_proper index).digits_below
    (numbering.word_proper later).digits_below
  have numbers : ∀ index, Shortlex.number numbering.base
      ((numbering.word index).map (·.digit numbering.alphabet)) = index :=
    numbering.number_word
  rwa [numbers, numbers, List.length_map, List.length_map] at ordered

theorem length_spell (index : Nat) :
    (Shortlex.spell numbering.base index).length = (numbering.word index).length := by
  simp [Numbering.word]

theorem total_lt_wordBound : numbering.total < wordBound := numbering.fits

theorem horizon_le_total : numbering.horizon ≤ numbering.total :=
  Shortlex.le_first numbering.inhabited numbering.horizon

@[simp] theorem length_history (index : Nat) :
    (numbering.history index).length = (numbering.word index).length := by
  cases index with
  | zero => simp [history, History.length]
  | succ index =>
      rw [Numbering.word, Shortlex.spell_succ]
      simp [history, History.length, Numbering.word]

theorem history_extend (known : numbering.Known symbol) (index : Nat) :
    numbering.history (numbering.extend index symbol) =
      (numbering.history index).extend index symbol := by
  have below := known.digit_lt
  have quotient :
      (index * numbering.base + symbol.digit numbering.alphabet) / numbering.base = index := by
    rw [Nat.mul_comm, Nat.mul_add_div numbering.inhabited, Nat.div_eq_of_lt below, Nat.add_zero]
  have remainder : (index * numbering.base + symbol.digit numbering.alphabet) % numbering.base =
      symbol.digit numbering.alphabet := by
    rw [Nat.mul_comm, Nat.mul_add_mod, Nat.mod_eq_of_lt below]
  rw [extend, history, quotient, remainder, Symbol.ofDigit_digit numbering.based known,
    History.extend, length_history]

end Numbering

end TeamPlanning
