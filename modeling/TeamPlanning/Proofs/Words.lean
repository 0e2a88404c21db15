import Mathlib.Algebra.BigOperators.Fin
import TeamPlanning.Proofs.Radix

/-! # Words and their numbers

The words of one length are numbered by reading their symbols as digits. Reading and spelling undo
each other, and neither refuses anything that it could answer: a word of known symbols is read if its
number is in range, and a number is spelled with every length that has room for it. -/

set_option autoImplicit false

namespace TeamPlanning.Radix

open scoped BigOperators

/-- The value of a word, symbol by symbol: each counts once for every word of those after it. -/
theorem value_places_eq_sum (base : Nat) (word : List Nat) :
    value (places base word) =
      ∑ place : Fin word.length, word[place] * base ^ (word.length - 1 - place) := by
  induction word with
  | nil => rfl
  | cons digit word ih =>
      have later : ∀ place : Fin word.length,
          word.length - (place.val + 1) = word.length - 1 - place.val := fun place => by omega
      refine Eq.trans ?_ (Fin.sum_univ_succ _).symm
      change digit * volume (places base word) + value (places base word) = _
      rw [volume_places, ih]
      simp [later]

theorem decode_isOk_iff {index length base : Nat} :
    (∃ word, decode index length base = .ok word) ↔
      length < capacity ∧ (length = 0 ∧ index = 0 ∨ 0 < base ∧ index < base ^ length) := by
  simp only [decode_eq_ok_iff, exists_and_left]
  refine and_congr_right fun _ => ?_
  constructor
  · rintro ⟨word, rfl, below, rfl⟩
    cases word with
    | nil => exact .inl ⟨rfl, rfl⟩
    | cons digit word =>
        have positive : 0 < base := Nat.zero_lt_of_lt (below digit List.mem_cons_self)
        have small := (within_places.mpr below).value_lt_volume
        rw [volume_places] at small
        exact .inr ⟨positive, small⟩
  · rintro (⟨rfl, rfl⟩ | ⟨_, small⟩)
    · exact ⟨[], rfl, List.forall_mem_nil _, rfl⟩
    · rw [← List.prod_replicate] at small
      obtain ⟨word, split⟩ := toIndividual_of_lt small
      obtain ⟨long, within, whole⟩ := toIndividual_eq_ok_iff.mp split
      rw [List.length_replicate] at long
      rw [← long, ← places_eq_zip] at within whole
      exact ⟨word, long, within_places.mp within, whole⟩

/-- What is not spelled is refused, or else the machine halts. -/
theorem decode_eq_error {index length base : Nat} {fault : Fault}
    (failed : decode index length base = .error fault) :
    (∃ cause, fault = .missing cause) ∨ fault = .halted .capacity := by
  by_cases empty : base = 0 ∧ 0 < length
  · obtain ⟨rfl, long⟩ := empty
    rw [decode_of_empty long] at failed
    cases failed
    exact .inl ⟨_, rfl⟩
  · by_cases stored : length < capacity
    · rw [decode_of_stored empty stored] at failed
      split at failed
      · cases failed
      · cases failed
        exact .inl ⟨_, rfl⟩
    · rw [decode, if_neg empty,
        bind_of_eq_error (Machine.reserve_of_le (Nat.le_of_not_lt stored))] at failed
      cases failed
      exact .inr rfl

theorem decode_halts_iff {index length base : Nat} :
    decode index length base = .error (.halted .capacity) ↔ 0 < base ∧ capacity ≤ length := by
  constructor
  · intro halted
    by_contra answered
    by_cases empty : base = 0 ∧ 0 < length
    · obtain ⟨rfl, long⟩ := empty
      rw [decode_of_empty long] at halted
      cases halted
    · have stored : length < capacity := by
        have positive := capacity_pos
        omega
      rw [decode_of_stored empty stored] at halted
      split at halted <;> cases halted
  · exact fun given => decode_of_capacity_le given.1 given.2

/-- How the words over an alphabet of `base` symbols and the numbers stand for each other. -/
structure NumbersWords (base : Nat) : Prop where
  encode_eq_ok_iff : ∀ word number, encode word base = .ok number ↔
    (∀ digit ∈ word, digit < base) ∧ number < wordBound ∧
      number = ∑ place : Fin word.length, word[place] * base ^ (word.length - 1 - place)
  decode_isOk_iff : ∀ index length, (∃ word, decode index length base = .ok word) ↔
    length < capacity ∧ (length = 0 ∧ index = 0 ∨ 0 < base ∧ index < base ^ length)
  decode_halts_iff : ∀ index length,
    decode index length base = .error (.halted .capacity) ↔ 0 < base ∧ capacity ≤ length
  decode_eq_error : ∀ index length fault, decode index length base = .error fault →
    (∃ cause, fault = .missing cause) ∨ fault = .halted .capacity
  decode_encode : ∀ word number, word.length < capacity → encode word base = .ok number →
    decode number word.length base = .ok word
  encode_decode : ∀ index length word, index < wordBound → decode index length base = .ok word →
    encode word base = .ok index
  encode_lt_iff : ∀ left right number number', left.length = right.length →
    encode left base = .ok number → encode right base = .ok number' →
      (number < number' ↔ left < right)

/-- Reading and spelling are exact inverses, and they keep the order of words of one length. The machine
halts on the lengths that no array has room for, and on no others. -/
theorem encode_decode_exact (base : Nat) : NumbersWords base := by
  constructor
  case encode_eq_ok_iff =>
    intro word number
    rw [encode_eq_ok_iff, value_places_eq_sum]
    constructor
    · rintro ⟨below, fits, rfl⟩
      exact ⟨below, fits, rfl⟩
    · rintro ⟨below, fits, rfl⟩
      exact ⟨below, fits, rfl⟩
  case decode_isOk_iff => exact fun index length => decode_isOk_iff
  case decode_halts_iff => exact fun index length => decode_halts_iff
  case decode_eq_error => exact fun index length fault => decode_eq_error
  case decode_encode =>
    intro word number stored read
    obtain ⟨below, _, rfl⟩ := encode_eq_ok_iff.mp read
    exact decode_eq_ok_iff.mpr ⟨stored, rfl, below, rfl⟩
  case encode_decode =>
    intro index length word small spelled
    obtain ⟨_, _, below, rfl⟩ := decode_eq_ok_iff.mp spelled
    exact encode_eq_ok_iff.mpr ⟨below, small, rfl⟩
  case encode_lt_iff =>
    intro left right number number' matched read read'
    obtain ⟨below, _, rfl⟩ := encode_eq_ok_iff.mp read
    obtain ⟨below', _, rfl⟩ := encode_eq_ok_iff.mp read'
    exact value_lt_iff below below' matched

/-- One is a number of every length over two symbols, but it is not spelled with a length beyond all
arrays: the machine halts, as it does where there is no such word. -/
theorem decode_halts_beyond_capacity :
    ¬ ((∃ word, decode 1 capacity 2 = .ok word) ↔
        capacity = 0 ∧ 1 = 0 ∨ 0 < 2 ∧ 1 < 2 ^ capacity) ∧
      decode 1 capacity 2 = .error (.halted .capacity) ∧
        ¬ 1 < 1 ^ capacity ∧ decode 1 capacity 1 = .error (.halted .capacity) := by
  have halted := @decode_of_capacity_le 1 capacity 2 (by decide) (Nat.le_refl capacity)
  refine ⟨fun law => ?_, halted, by rw [Nat.one_pow]; decide,
    decode_of_capacity_le (by decide) (Nat.le_refl capacity)⟩
  obtain ⟨word, spelled⟩ := law.mpr (.inr ⟨by decide, Nat.one_lt_two_pow capacity_pos.ne'⟩)
  rw [halted] at spelled
  cases spelled

/-- The largest word of 64 bits is read, and one symbol more is out of range. -/
example : encode (List.replicate 64 1) 2 = .ok (wordBound - 1) ∧
    encode (1 :: List.replicate 64 0) 2 = .error (.tooLarge (.product (2 ^ 63) 2)) := by
  decide +kernel

end TeamPlanning.Radix
