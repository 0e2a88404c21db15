import Mathlib.Algebra.BigOperators.Group.Finset.Basic
import Mathlib.Data.List.Induction
import TeamPlanning.Proofs.Radix

/-! # Numbering words by length

All words over an alphabet are numbered from 0 on: shorter words first, and words of one length in
the order of their digits. Appending digit `d` to word number `n` gives word number
`n * base + d + 1`, so every number has one word, and the numbering needs no table. -/

set_option autoImplicit false

namespace TeamPlanning.Shortlex

open scoped BigOperators

/-- The number of the first word of a length: how many words are shorter. -/
def first (base : Nat) : (length : Nat) → Nat
  | 0 => 0
  | length + 1 => first base length * base + 1

def number (base : Nat) (word : List Nat) : Nat :=
  word.foldl (fun number digit => number * base + digit + 1) 0

def spell (base : Nat) : (number : Nat) → List Nat
  | 0 => []
  | number + 1 => spell base (number / base) ++ [number % base]
termination_by number => number
decreasing_by exact Nat.lt_succ_of_le (Nat.div_le_self number base)

@[simp] theorem number_nil (base : Nat) : number base [] = 0 := rfl

@[simp] theorem number_append_digit (base : Nat) (word : List Nat) (digit : Nat) :
    number base (word ++ [digit]) = number base word * base + digit + 1 := by
  simp [number]

@[simp] theorem spell_zero (base : Nat) : spell base 0 = [] := by
  rw [spell]

theorem spell_succ (base number : Nat) :
    spell base (number + 1) = spell base (number / base) ++ [number % base] := by
  rw [spell]

theorem spell_extend {base digit : Nat} (below : digit < base) (number : Nat) :
    spell base (number * base + digit + 1) = spell base number ++ [digit] := by
  have positive : 0 < base := by omega
  have quotient : (number * base + digit) / base = number := by
    rw [Nat.mul_comm, Nat.mul_add_div positive, Nat.div_eq_of_lt below, Nat.add_zero]
  have remainder : (number * base + digit) % base = digit := by
    rw [Nat.mul_comm, Nat.mul_add_mod, Nat.mod_eq_of_lt below]
  rw [spell_succ, quotient, remainder]

/-- Every number but 0 extends exactly one number by exactly one digit. -/
theorem extend_injective {base digit digit' number number' : Nat} (below : digit < base)
    (below' : digit' < base)
    (same : number * base + digit + 1 = number' * base + digit' + 1) :
    number = number' ∧ digit = digit' := by
  have positive : 0 < base := by omega
  have equal : number * base + digit = number' * base + digit' := by omega
  have quotient := congrArg (· / base) equal
  have remainder := congrArg (· % base) equal
  simp only [Nat.mul_comm _ base, Nat.mul_add_div positive, Nat.div_eq_of_lt below,
    Nat.div_eq_of_lt below', Nat.mul_add_mod, Nat.mod_eq_of_lt below, Nat.mod_eq_of_lt below',
    Nat.add_zero] at quotient remainder
  exact ⟨quotient, remainder⟩

/-- Induction along the extensions: from the empty history on, digit by digit. -/
theorem extend_induction {base : Nat} (positive : 0 < base) {motive : Nat → Prop}
    (empty : motive 0)
    (extend : ∀ number digit, digit < base → motive number → motive (number * base + digit + 1))
    (number : Nat) : motive number := by
  induction number using Nat.strong_induction_on with
  | _ number ih =>
      cases number with
      | zero => exact empty
      | succ number =>
          have whole : number / base * base + number % base = number := by
            rw [Nat.mul_comm]
            exact Nat.div_add_mod number base
          have earlier := ih (number / base) (Nat.lt_succ_of_le (Nat.div_le_self number base))
          have reached := extend _ _ (Nat.mod_lt number positive) earlier
          rwa [whole] at reached

theorem number_spell (base number : Nat) : Shortlex.number base (spell base number) = number := by
  induction number using Nat.strong_induction_on with
  | _ number ih =>
      cases number with
      | zero => simp
      | succ number =>
          have earlier := ih (number / base) (Nat.lt_succ_of_le (Nat.div_le_self number base))
          rw [spell_succ, number_append_digit, earlier, Nat.mul_comm, Nat.div_add_mod]

theorem spell_below {base : Nat} (positive : 0 < base) (number : Nat) :
    ∀ digit ∈ spell base number, digit < base := by
  induction number using extend_induction positive with
  | empty => simp
  | extend number digit below ih =>
      rw [spell_extend below]
      intro other member
      rcases List.mem_append.mp member with member | member
      · exact ih other member
      · rw [List.mem_singleton.mp member]
        exact below

/-! ## Lengths -/

theorem first_succ (base length : Nat) :
    first base (length + 1) = first base length + base ^ length := by
  induction length with
  | zero => simp [first]
  | succ length ih =>
      calc first base (length + 1 + 1)
          = first base (length + 1) * base + 1 := rfl
        _ = (first base length + base ^ length) * base + 1 := by rw [ih]
        _ = first base (length + 1) + base ^ (length + 1) := by rw [first]; ring

theorem first_eq_sum (base length : Nat) :
    first base length = ∑ stage ∈ Finset.range length, base ^ stage := by
  induction length with
  | zero => rfl
  | succ length ih => rw [first_succ, ih, Finset.sum_range_succ]

theorem first_mono (base : Nat) {shorter longer : Nat} (ordered : shorter ≤ longer) :
    first base shorter ≤ first base longer := by
  induction ordered with
  | refl => exact Nat.le_refl _
  | step _ ih => exact Nat.le_trans ih (by rw [first_succ]; omega)

theorem first_strictMono {base : Nat} (positive : 0 < base) {shorter longer : Nat}
    (ordered : shorter < longer) : first base shorter < first base longer := by
  have power : 0 < base ^ shorter := Nat.pow_pos positive
  have step : first base shorter < first base (shorter + 1) := by
    rw [first_succ]
    omega
  exact Nat.lt_of_lt_of_le step (first_mono base ordered)

theorem le_first {base : Nat} (positive : 0 < base) (length : Nat) :
    length ≤ first base length := by
  induction length with
  | zero => exact Nat.le_refl _
  | succ length ih =>
      exact Nat.lt_of_le_of_lt ih (first_strictMono positive (Nat.lt_succ_self length))

/-- A word of a length is numbered from the first one on in the order of its value. -/
theorem number_eq_first_add (base : Nat) (word : List Nat) :
    number base word = first base word.length + Radix.value (Radix.places base word) := by
  have general : ∀ number, word.foldl (fun number digit => number * base + digit + 1) number =
      number * base ^ word.length + first base word.length +
        Radix.value (Radix.places base word) := by
    induction word with
    | nil => simp [first, Radix.places]
    | cons digit word ih =>
        intro number
        have tail : Radix.volume (Radix.places base word) = base ^ word.length :=
          Radix.volume_places base word
        simp only [List.foldl_cons, List.length_cons, ih, Radix.places, List.map_cons,
          Radix.value_cons]
        rw [show Radix.volume (word.map fun digit => (digit, base)) = base ^ word.length from tail,
          first_succ]
        ring
  have whole := general 0
  rw [Nat.zero_mul, Nat.zero_add] at whole
  exact whole

theorem first_le_number (base : Nat) (word : List Nat) :
    first base word.length ≤ number base word := by
  rw [number_eq_first_add]
  omega

theorem number_lt_first {base : Nat} {word : List Nat} (below : ∀ digit ∈ word, digit < base) :
    number base word < first base (word.length + 1) := by
  have small := (Radix.within_places.mpr below).value_lt_volume
  rw [Radix.volume_places] at small
  rw [number_eq_first_add, first_succ]
  omega

/-- The words below a number of stages are those that are short enough. -/
theorem number_lt_first_iff {base : Nat} {word : List Nat} (below : ∀ digit ∈ word, digit < base)
    (horizon : Nat) : number base word < first base horizon ↔ word.length < horizon := by
  constructor
  · intro early
    by_contra late
    have start := first_mono base (Nat.le_of_not_lt late)
    have reached := first_le_number base word
    omega
  · intro short
    exact Nat.lt_of_lt_of_le (number_lt_first below) (first_mono base short)

theorem length_spell_lt_iff {base : Nat} (positive : 0 < base) (number horizon : Nat) :
    (spell base number).length < horizon ↔ number < first base horizon := by
  rw [← number_lt_first_iff (spell_below positive number) horizon, number_spell]

/-- Below a total the base need not be positive: without digits there is only the empty word. -/
theorem length_spell_lt_iff_of_lt {base number horizon : Nat}
    (inside : number < first base horizon) (stage : Nat) :
    (spell base number).length < stage ↔ number < first base stage := by
  rcases Nat.eq_zero_or_pos base with rfl | positive
  · have first : ∀ stage, first 0 stage = if stage = 0 then 0 else 1 := by
      intro stage
      cases stage with
      | zero => rfl
      | succ stage => simp [first]
    obtain rfl : number = 0 := by
      rw [first] at inside
      split at inside <;> omega
    rw [spell_zero, first]
    cases stage with
    | zero => simp
    | succ stage => simp
  · exact length_spell_lt_iff positive number stage

/-! ## Order -/

/-- Numbers follow the length of the words and then the order of their digits. -/
theorem number_lt_number_iff {base : Nat} {left right : List Nat}
    (belowLeft : ∀ digit ∈ left, digit < base) (belowRight : ∀ digit ∈ right, digit < base) :
    number base left < number base right ↔
      left.length < right.length ∨ left.length = right.length ∧ left < right := by
  rcases Nat.lt_trichotomy left.length right.length with shorter | matched | longer
  · have early := (number_lt_first_iff belowLeft right.length).mpr shorter
    have late := first_le_number base right
    simp only [shorter, true_or, iff_true]
    omega
  · rw [number_eq_first_add, number_eq_first_add, ← Radix.value_lt_iff belowLeft belowRight matched,
      matched]
    simp
  · have early := (number_lt_first_iff belowRight left.length).mpr longer
    have late := first_le_number base left
    constructor
    · intro
      omega
    · intro given
      rcases given with shorter | ⟨matched, _⟩ <;> omega

end TeamPlanning.Shortlex
