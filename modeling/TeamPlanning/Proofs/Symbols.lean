import TeamPlanning.Proofs.Outcome
import TeamPlanning.Symbol.Digit

/-! # Symbols and digits

Over an alphabet the symbols of a kind and the digits below the base correspond one to one. The
product behind the digit of a pair stays in range because the base does. -/

set_option autoImplicit false

namespace TeamPlanning

/-- The number of a cell is below that of all cells, row by row. -/
theorem mul_add_lt {rows cols row col : Nat} (inside : row < rows) (within : col < cols) :
    row * cols + col < rows * cols := by
  have next : (row + 1) * cols ≤ rows * cols := Nat.mul_le_mul_right cols inside
  rw [Nat.add_mul] at next
  omega

namespace Symbol

variable {c : HistoryKind} {alphabet : Alphabet} {base : Nat}

theorem pair_digit_eq {action observation : Nat}
    (fits : alphabet.actions * alphabet.observations < wordBound)
    (knownAction : action < alphabet.actions)
    (knownObservation : observation < alphabet.observations) :
    (Symbol.actionObservation action observation).digit alphabet =
      action * alphabet.observations + observation := by
  have small := mul_add_lt knownAction knownObservation
  rw [digit, Word.mul_of_lt (by omega), Word.add_of_lt (by omega)]

theorem digit_lt_base (based : c.base alphabet = .ok base) {symbol : Symbol c}
    (within : symbol.within alphabet = true) : symbol.digit alphabet < base := by
  cases symbol with
  | observation o =>
      cases based
      exact of_decide_eq_true within
  | action a =>
      cases based
      exact of_decide_eq_true within
  | actionObservation a o =>
      obtain ⟨fits, rfl⟩ := Bounded.mul_eq_ok_iff.mp based
      simp only [Symbol.within, Bool.and_eq_true, decide_eq_true_eq] at within
      rw [pair_digit_eq fits within.1 within.2]
      exact mul_add_lt within.1 within.2

theorem ofDigit_digit (based : c.base alphabet = .ok base) {symbol : Symbol c}
    (within : symbol.within alphabet = true) :
    ofDigit c (symbol.digit alphabet) alphabet = symbol := by
  cases symbol with
  | observation o => rfl
  | action a => rfl
  | actionObservation a o =>
      obtain ⟨fits, rfl⟩ := Bounded.mul_eq_ok_iff.mp based
      simp only [Symbol.within, Bool.and_eq_true, decide_eq_true_eq] at within
      have positive : 0 < alphabet.observations := by omega
      rw [pair_digit_eq fits within.1 within.2, Nat.mul_comm]
      simp only [ofDigit, Nat.mul_add_div positive, Nat.div_eq_of_lt within.2, Nat.add_zero,
        Nat.mul_add_mod, Nat.mod_eq_of_lt within.2]

theorem within_ofDigit (based : c.base alphabet = .ok base) {number : Nat} (below : number < base) :
    (ofDigit c number alphabet).within alphabet = true := by
  cases c with
  | observation =>
      cases based
      exact decide_eq_true below
  | action =>
      cases based
      exact decide_eq_true below
  | actionObservation =>
      obtain ⟨_, rfl⟩ := Bounded.mul_eq_ok_iff.mp based
      have positive : 0 < alphabet.observations :=
        Nat.pos_of_ne_zero fun zero => by simp [zero] at below
      simp only [Symbol.within, ofDigit, Bool.and_eq_true, decide_eq_true_eq]
      exact ⟨(Nat.div_lt_iff_lt_mul positive).mpr below, Nat.mod_lt _ positive⟩

theorem digit_ofDigit (based : c.base alphabet = .ok base) {number : Nat} (below : number < base) :
    (ofDigit c number alphabet).digit alphabet = number := by
  cases c with
  | observation => rfl
  | action => rfl
  | actionObservation =>
      have within := within_ofDigit (c := .actionObservation) based below
      obtain ⟨fits, rfl⟩ := Bounded.mul_eq_ok_iff.mp based
      simp only [Symbol.within, ofDigit, Bool.and_eq_true, decide_eq_true_eq] at within
      rw [ofDigit, pair_digit_eq fits within.1 within.2, Nat.mul_comm, Nat.div_add_mod]

/-- The digit of a symbol is known exactly if the symbol lies within the alphabet. -/
theorem validDigit_answers (symbol : Symbol c) (alphabet : Alphabet) :
    Answers (symbol.validDigit alphabet)
      (if symbol.within alphabet then some (symbol.digit alphabet) else none) := by
  unfold validDigit
  by_cases within : symbol.within alphabet = true
  · simp only [within, ↓reduceIte]
    rfl
  · simp only [within, Bool.false_eq_true, ↓reduceIte]
    exact ⟨_, rfl⟩

theorem mapM_validDigit_answers (word : List (Symbol c)) (alphabet : Alphabet) :
    Answers (word.mapM (·.validDigit alphabet))
      (if ∀ symbol ∈ word, symbol.within alphabet = true then some (word.map (·.digit alphabet))
        else none) := by
  split
  · rename_i within
    rw [Answers, mapM_eq_ok_iff, List.forall₂_map_right_iff, List.forall₂_same]
    intro symbol member
    exact (validDigit_answers symbol alphabet).eq_ok_iff.mpr (if_pos (within symbol member))
  · rename_i foreign
    have refused : ∃ symbol ∈ word, ∃ fault, symbol.validDigit alphabet = .error fault := by
      simp only [not_forall] at foreign
      obtain ⟨symbol, member, outside⟩ := foreign
      have answers := validDigit_answers symbol alphabet
      rw [if_neg outside] at answers
      obtain ⟨_, failed⟩ := answers
      exact ⟨symbol, member, _, failed⟩
    obtain ⟨symbol, _, fault, failed, whole⟩ := mapM_eq_error refused
    have answers := validDigit_answers symbol alphabet
    split at answers
    · rw [answers] at failed
      cases failed
    · obtain ⟨cause, missing⟩ := answers
      rw [missing] at failed
      cases failed
      exact ⟨cause, whole⟩

end Symbol

end TeamPlanning
