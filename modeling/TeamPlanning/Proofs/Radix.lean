import Mathlib.Algebra.BigOperators.Group.List.Basic
import Mathlib.Tactic.Ring
import TeamPlanning.Proofs.Outcome
import TeamPlanning.Radix

/-! # The value of a numeral

A numeral pairs every digit with its radix, the most significant place first. Reading a numeral and
splitting a number are inverse to each other, and both succeed exactly where the mathematical value
allows it: no intermediate result leaves the range unless the value does. -/

set_option autoImplicit false

namespace TeamPlanning.Radix

/-- How many numerals there are with the same radices. -/
def volume (numeral : List (Nat × Nat)) : Nat := (numeral.map (·.2)).prod

/-- The number that a numeral stands for, without any bound. -/
def value : List (Nat × Nat) → Nat
  | [] => 0
  | (digit, _) :: numeral => digit * volume numeral + value numeral

def Within (numeral : List (Nat × Nat)) : Prop := ∀ place ∈ numeral, place.1 < place.2

@[simp] theorem volume_nil : volume [] = 1 := rfl

@[simp] theorem volume_cons (place : Nat × Nat) (numeral : List (Nat × Nat)) :
    volume (place :: numeral) = place.2 * volume numeral := by
  simp [volume]

@[simp] theorem value_nil : value [] = 0 := rfl

@[simp] theorem value_cons (place : Nat × Nat) (numeral : List (Nat × Nat)) :
    value (place :: numeral) = place.1 * volume numeral + value numeral := rfl

@[simp] theorem within_nil : Within [] := by simp [Within]

@[simp] theorem within_cons {place : Nat × Nat} {numeral : List (Nat × Nat)} :
    Within (place :: numeral) ↔ place.1 < place.2 ∧ Within numeral := by
  simp [Within]

theorem Within.volume_pos {numeral : List (Nat × Nat)} (within : Within numeral) :
    0 < volume numeral := by
  induction numeral with
  | nil => exact Nat.one_pos
  | cons place numeral ih =>
      obtain ⟨below, within⟩ := within_cons.mp within
      rw [volume_cons]
      exact Nat.mul_pos (by omega) (ih within)

theorem Within.value_lt_volume {numeral : List (Nat × Nat)} (within : Within numeral) :
    value numeral < volume numeral := by
  induction numeral with
  | nil => exact Nat.one_pos
  | cons place numeral ih =>
      obtain ⟨below, within⟩ := within_cons.mp within
      have rest := ih within
      have room : (place.1 + 1) * volume numeral ≤ place.2 * volume numeral :=
        Nat.mul_le_mul_right _ below
      rw [value_cons, volume_cons]
      rw [Nat.add_mul] at room
      omega

/-! ## Reading -/

theorem push_eq_ok_iff {foreign : Nat → Nat → Fault} {number : Nat} {place : Nat × Nat}
    {result : Nat} :
    push foreign number place = .ok result ↔
      place.1 < place.2 ∧ number * place.2 + place.1 < wordBound ∧
        result = number * place.2 + place.1 := by
  obtain ⟨digit, radix⟩ := place
  simp only [push]
  split
  · rename_i below
    rw [bind_eq_ok_iff]
    simp only [Bounded.mul_eq_ok_iff, Bounded.add_eq_ok_iff, below, true_and]
    constructor
    · intro given
      obtain ⟨shifted, ⟨_, rfl⟩, fits, rfl⟩ := given
      exact ⟨fits, rfl⟩
    · intro given
      obtain ⟨fits, rfl⟩ := given
      exact ⟨number * radix, ⟨by omega, rfl⟩, fits, rfl⟩
  · rename_i foreign
    simp [foreign]

private theorem foldlM_push_eq_ok_iff {foreign : Nat → Nat → Fault}
    {numeral : List (Nat × Nat)} {number result : Nat} (small : number < wordBound) :
    numeral.foldlM (push foreign) number = .ok result ↔
      Within numeral ∧ number * volume numeral + value numeral < wordBound ∧
        result = number * volume numeral + value numeral := by
  induction numeral generalizing number with
  | nil =>
      simp [pure, Except.pure, small, eq_comm]
  | cons place numeral ih =>
      have regroup : number * (place.2 * volume numeral) +
          (place.1 * volume numeral + value numeral) =
            (number * place.2 + place.1) * volume numeral + value numeral := by ring
      rw [List.foldlM_cons, bind_eq_ok_iff, within_cons, volume_cons, value_cons, regroup]
      constructor
      · intro given
        obtain ⟨next, pushed, rest⟩ := given
        obtain ⟨below, fits, rfl⟩ := push_eq_ok_iff.mp pushed
        obtain ⟨within, total, rfl⟩ := (ih fits).mp rest
        exact ⟨⟨below, within⟩, total, rfl⟩
      · intro given
        obtain ⟨⟨below, within⟩, total, rfl⟩ := given
        -- The places to come can only enlarge the number, since no radix among them is zero.
        have grows : (number * place.2 + place.1) * 1 ≤
            (number * place.2 + place.1) * volume numeral :=
          Nat.mul_le_mul_left _ within.volume_pos
        have fits : number * place.2 + place.1 < wordBound := by omega
        exact ⟨_, push_eq_ok_iff.mpr ⟨below, fits, rfl⟩, (ih fits).mpr ⟨within, total, rfl⟩⟩

theorem join_eq_ok_iff {foreign : Nat → Nat → Fault} {numeral : List (Nat × Nat)} {result : Nat} :
    join foreign numeral = .ok result ↔
      Within numeral ∧ value numeral < wordBound ∧ result = value numeral := by
  have start : 0 < wordBound := by decide
  simp only [join, foldlM_push_eq_ok_iff start, Nat.zero_mul, Nat.zero_add]

/-! ## Splitting -/

theorem split_cons (radix : Nat) (radices : List Nat) (number : Nat) :
    split (radix :: radices) number =
      ((split radices number).1 / radix,
        (split radices number).1 % radix :: (split radices number).2) := rfl

theorem length_split (radices : List Nat) (number : Nat) :
    (split radices number).2.length = radices.length := by
  induction radices with
  | nil => rfl
  | cons radix radices ih => rw [split_cons, List.length_cons, ih, List.length_cons]

theorem split_value (radices : List Nat) (number : Nat) :
    (split radices number).1 * volume ((split radices number).2.zip radices) +
      value ((split radices number).2.zip radices) = number := by
  induction radices with
  | nil => simp [split]
  | cons radix radices ih =>
      simp only [split_cons, List.zip_cons_cons, volume_cons, value_cons]
      have divided := Nat.div_add_mod (split radices number).1 radix
      generalize (split radices number).1 = quotient at ih divided ⊢
      generalize volume ((split radices number).2.zip radices) = size at ih ⊢
      calc quotient / radix * (radix * size) +
              (quotient % radix * size + value ((split radices number).2.zip radices))
          = (radix * (quotient / radix) + quotient % radix) * size +
              value ((split radices number).2.zip radices) := by ring
        _ = number := by rw [divided, ih]

theorem split_within {radices : List Nat} (positive : 0 ∉ radices) (number : Nat) :
    Within ((split radices number).2.zip radices) := by
  induction radices with
  | nil => simp [split]
  | cons radix radices ih =>
      simp only [List.mem_cons, not_or] at positive
      simp only [split_cons, List.zip_cons_cons, within_cons]
      exact ⟨Nat.mod_lt _ (by omega), ih positive.2⟩

/-- A number determines its remainders: no other digits within the radices stand for it. -/
theorem split_unique {digits radices : List Nat} (matched : digits.length = radices.length)
    (within : Within (digits.zip radices)) (quotient : Nat) :
    split radices (quotient * volume (digits.zip radices) + value (digits.zip radices)) =
      (quotient, digits) := by
  induction radices generalizing digits quotient with
  | nil =>
      obtain rfl := List.length_eq_zero_iff.mp matched
      simp [split]
  | cons radix radices ih =>
      cases digits with
      | nil => cases matched
      | cons digit digits =>
          simp only [List.zip_cons_cons, within_cons] at within
          obtain ⟨below, within⟩ := within
          have regroup :
              quotient * volume ((digit :: digits).zip (radix :: radices)) +
                  value ((digit :: digits).zip (radix :: radices)) =
                (radix * quotient + digit) * volume (digits.zip radices) +
                  value (digits.zip radices) := by
            simp only [List.zip_cons_cons, volume_cons, value_cons]
            ring
          have rest := ih (Nat.succ.inj matched) within (radix * quotient + digit)
          have positive : 0 < radix := by omega
          rw [split_cons, regroup, rest]
          simp only [Nat.mul_add_div positive, Nat.div_eq_of_lt below, Nat.mul_add_mod,
            Nat.mod_eq_of_lt below, Nat.add_zero]

/-- Nothing is left of a number exactly if the remainders stand for all of it. -/
theorem split_eq_zero_iff {radices digits : List Nat} {number : Nat} (positive : 0 ∉ radices) :
    split radices number = (0, digits) ↔
      digits.length = radices.length ∧ Within (digits.zip radices) ∧
        value (digits.zip radices) = number := by
  constructor
  · intro exhausted
    have size := length_split radices number
    have within := split_within positive number
    have whole := split_value radices number
    rw [exhausted] at size within whole
    rw [Nat.zero_mul, Nat.zero_add] at whole
    exact ⟨size, within, whole⟩
  · intro given
    obtain ⟨matched, within, rfl⟩ := given
    have unique := split_unique matched within 0
    rwa [Nat.zero_mul, Nat.zero_add] at unique

theorem Within.zero_not_mem {digits radices : List Nat} (matched : digits.length = radices.length)
    (within : Within (digits.zip radices)) : 0 ∉ radices := by
  intro member
  have listed : (digits.zip radices).map Prod.snd = radices := List.map_snd_zip (by omega)
  rw [← listed] at member
  obtain ⟨place, placed, zero⟩ := List.mem_map.mp member
  have below := within place placed
  omega

/-! ## Words and joint symbols -/

theorem toIndividual_eq_ok_iff {joint : Nat} {sizes individual : List Nat} :
    toIndividual joint sizes = .ok individual ↔
      individual.length = sizes.length ∧ Within (individual.zip sizes) ∧
        value (individual.zip sizes) = joint := by
  simp only [toIndividual]
  split
  · rename_i empty
    constructor
    · intro accepted
      cases accepted
    · intro given
      obtain ⟨matched, within, _⟩ := given
      exact absurd empty (within.zero_not_mem matched)
  · rename_i positive
    rw [← split_eq_zero_iff positive]
    cases split sizes joint with
    | mk rest remainders =>
        by_cases exhausted : rest = 0 <;> simp [exhausted]

theorem toJoint_eq_ok_iff {individual sizes : List Nat} {joint : Nat} :
    toJoint individual sizes = .ok joint ↔
      individual.length = sizes.length ∧ Within (individual.zip sizes) ∧
        value (individual.zip sizes) < wordBound ∧ joint = value (individual.zip sizes) := by
  unfold toJoint
  split
  · rename_i matched
    simp only [join_eq_ok_iff, matched, true_and]
  · rename_i different
    simp [different]

/-- What splits into digits within the sizes is joined from them, if it is in range. -/
theorem toJoint_eq_ok_iff_toIndividual {individual sizes : List Nat} {joint : Nat} :
    toJoint individual sizes = .ok joint ↔
      toIndividual joint sizes = .ok individual ∧ joint < wordBound := by
  rw [toJoint_eq_ok_iff, toIndividual_eq_ok_iff]
  constructor
  · intro given
    obtain ⟨matched, within, fits, rfl⟩ := given
    exact ⟨⟨matched, within, rfl⟩, fits⟩
  · intro given
    obtain ⟨⟨matched, within, rfl⟩, fits⟩ := given
    exact ⟨matched, within, fits, rfl⟩

theorem forall₂_lt_iff {individual sizes : List Nat} :
    List.Forall₂ (· < ·) individual sizes ↔
      individual.length = sizes.length ∧ Within (individual.zip sizes) := by
  rw [List.forall₂_iff_zip]
  simp only [Within, Prod.forall]

theorem volume_zip {individual sizes : List Nat} (matched : individual.length = sizes.length) :
    volume (individual.zip sizes) = sizes.prod := by
  rw [volume, List.map_snd_zip (Nat.le_of_eq matched.symm)]

theorem forall₂_of_toIndividual {individual sizes : List Nat} {joint : Nat}
    (read : toIndividual joint sizes = .ok individual) :
    List.Forall₂ (· < ·) individual sizes ∧ joint < sizes.prod := by
  obtain ⟨matched, within, rfl⟩ := toIndividual_eq_ok_iff.mp read
  refine ⟨forall₂_lt_iff.mpr ⟨matched, within⟩, ?_⟩
  rw [← volume_zip matched]
  exact within.value_lt_volume

theorem toIndividual_of_lt {sizes : List Nat} {joint : Nat} (below : joint < sizes.prod) :
    ∃ individual, toIndividual joint sizes = .ok individual := by
  have positive : 0 ∉ sizes := by
    intro member
    have filled := List.prod_pos_iff_forall_pos_nat.mp (Nat.zero_lt_of_lt below)
    exact Nat.lt_irrefl 0 (filled 0 member)
  have matched := length_split sizes joint
  have whole := split_value sizes joint
  rw [volume_zip matched] at whole
  -- A quotient above zero would exceed the joint number by itself.
  have exhausted : (split sizes joint).1 = 0 := by
    by_contra some
    have large := Nat.mul_le_mul_right sizes.prod (Nat.one_le_iff_ne_zero.mpr some)
    omega
  rw [exhausted, Nat.zero_mul, Nat.zero_add] at whole
  exact ⟨_, toIndividual_eq_ok_iff.mpr ⟨matched, split_within positive joint, whole⟩⟩

theorem exists_toIndividual {individual sizes : List Nat}
    (within : List.Forall₂ (· < ·) individual sizes) :
    ∃ joint, toIndividual joint sizes = .ok individual := by
  obtain ⟨matched, within⟩ := forall₂_lt_iff.mp within
  exact ⟨_, toIndividual_eq_ok_iff.mpr ⟨matched, within, rfl⟩⟩

def places (base : Nat) (word : List Nat) : List (Nat × Nat) := word.map fun digit => (digit, base)

theorem places_eq_zip (base : Nat) (word : List Nat) :
    places base word = word.zip (List.replicate word.length base) := by
  induction word with
  | nil => rfl
  | cons digit word ih =>
      rw [List.length_cons, List.replicate_succ, List.zip_cons_cons, ← ih]
      rfl

theorem volume_places (base : Nat) (word : List Nat) :
    volume (places base word) = base ^ word.length := by
  induction word with
  | nil => rfl
  | cons digit word ih =>
      rw [List.length_cons, Nat.pow_succ', ← ih]
      exact volume_cons (digit, base) (places base word)

theorem within_places {base : Nat} {word : List Nat} :
    Within (places base word) ↔ ∀ digit ∈ word, digit < base := by
  simp [Within, places]

theorem encode_eq_ok_iff {word : List Nat} {base number : Nat} :
    encode word base = .ok number ↔
      (∀ digit ∈ word, digit < base) ∧ value (places base word) < wordBound ∧
        number = value (places base word) := by
  rw [encode, join_eq_ok_iff]
  exact and_congr_left' within_places

/-- Spelling where there is room for the word: the remainders, if nothing is left of the number. -/
theorem decode_of_stored {index length base : Nat} (sized : ¬ (base = 0 ∧ 0 < length))
    (stored : length < capacity) :
    decode index length base =
      if (split (List.replicate length base) index).1 = 0 then
        .ok (split (List.replicate length base) index).2
      else .error (.missing (.digits index length base)) := by
  rw [decode, if_neg sized, bind_of_eq_ok (Machine.reserve_of_lt stored)]

/-- The machine halts on a word that no array has room for, before a single digit is found. -/
theorem decode_of_capacity_le {index length base : Nat} (inhabited : 0 < base)
    (beyond : capacity ≤ length) :
    decode index length base = .error (.halted .capacity) := by
  rw [decode, if_neg (by omega), bind_of_eq_error (Machine.reserve_of_le beyond)]

theorem decode_of_empty {index length : Nat} (long : 0 < length) :
    decode index length 0 = .error (.missing .emptyAlphabet) := if_pos ⟨rfl, long⟩

theorem decode_eq_ok_iff {index length base : Nat} {word : List Nat} :
    decode index length base = .ok word ↔
      length < capacity ∧ word.length = length ∧ (∀ digit ∈ word, digit < base) ∧
        value (places base word) = index := by
  by_cases empty : base = 0 ∧ 0 < length
  · obtain ⟨rfl, long⟩ := empty
    rw [decode_of_empty long]
    constructor
    · intro accepted
      cases accepted
    · intro given
      obtain ⟨_, rfl, below, _⟩ := given
      exact absurd (below _ (List.getElem_mem long)) (Nat.not_lt_zero _)
  · by_cases stored : length < capacity
    · have positive : 0 ∉ List.replicate length base := by
        simp only [List.mem_replicate, not_and]
        omega
      have exact_iff : split (List.replicate length base) index = (0, word) ↔ _ :=
        split_eq_zero_iff positive
      rw [decode_of_stored empty stored]
      constructor
      · intro accepted
        have exhausted : split (List.replicate length base) index = (0, word) := by
          cases divided : split (List.replicate length base) index with
          | mk rest remainders =>
              by_cases done : rest = 0 <;> simp_all
        obtain ⟨matched, within, whole⟩ := exact_iff.mp exhausted
        rw [List.length_replicate] at matched
        subst matched
        rw [← places_eq_zip] at within whole
        exact ⟨stored, rfl, within_places.mp within, whole⟩
      · intro given
        obtain ⟨_, rfl, below, whole⟩ := given
        rw [← places_eq_zip] at exact_iff
        rw [exact_iff.mpr ⟨by simp, within_places.mpr below, whole⟩]
        rfl
    · have inhabited : 0 < base := by
        have positive := capacity_pos
        omega
      rw [decode_of_capacity_le inhabited (Nat.le_of_not_lt stored)]
      constructor
      · intro accepted
        cases accepted
      · exact fun given => absurd given.1 stored

/-- Of two words of one length the earlier one stands for less. -/
theorem value_lt_iff {base : Nat} {left right : List Nat}
    (belowLeft : ∀ digit ∈ left, digit < base) (belowRight : ∀ digit ∈ right, digit < base)
    (matched : left.length = right.length) :
    value (places base left) < value (places base right) ↔
      left < right := by
  induction left generalizing right with
  | nil =>
      obtain rfl := List.length_eq_zero_iff.mp matched.symm
      simp
  | cons digit left ih =>
      cases right with
      | nil => cases matched
      | cons digit' right =>
          simp only [List.mem_cons, forall_eq_or_imp] at belowLeft belowRight
          have rest := ih belowLeft.2 belowRight.2 (Nat.succ.inj matched)
          have smallLeft := (within_places.mpr belowLeft.2).value_lt_volume
          have smallRight := (within_places.mpr belowRight.2).value_lt_volume
          have volumes : volume (places base left) =
              volume (places base right) := by
            rw [volume_places, volume_places, Nat.succ.inj matched]
          change digit * volume (places base left) +
                value (places base left) <
              digit' * volume (places base right) +
                value (places base right) ↔ _
          rw [List.cons_lt_cons_iff, ← rest]
          rw [volumes] at smallLeft ⊢
          generalize volume (places base right) = size at smallLeft smallRight ⊢
          rcases Nat.lt_trichotomy digit digit' with less | rfl | greater
          · have room := Nat.mul_le_mul_right size less
            rw [Nat.succ_mul] at room
            simp only [less, true_or, iff_true]
            omega
          · simp
          · have room := Nat.mul_le_mul_right size greater
            rw [Nat.succ_mul] at room
            constructor
            · intro
              omega
            · intro given
              rcases given with less | ⟨rfl, _⟩ <;> omega

end TeamPlanning.Radix
