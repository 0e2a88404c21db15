import Mathlib

/-! # Rounding

A positive number of the format is a mantissa of at most 53 binary digits at a place, in units of the
smallest positive number of all. Rounding never falls below a number of the format that the exact
value reaches. -/

set_option autoImplicit false

namespace TeamPlanning.Floating

open Float.Model Float.Model.UnpackedFloat

/-- What a mantissa stands for at its place, in units of the smallest positive number. -/
def amount (mantissa place : Nat) : Nat := mantissa * 2 ^ place

/-- The one way to write a positive number of the format, were there no largest place: in as many
digits as there are, unless the place is the lowest. -/
structure Canonical (mantissa place : Nat) : Prop where
  pos : 0 < mantissa
  short : mantissa < 2 ^ 53
  full : 2 ^ 52 ≤ mantissa ∨ place = 0

variable {mantissa place mantissa' place' : Nat}

theorem amount_decrease {lowest place : Nat} (below : lowest ≤ place) (mantissa : Nat) :
    amount (mantissa * 2 ^ (place - lowest)) lowest = amount mantissa place := by
  unfold amount
  rw [Nat.mul_assoc, ← Nat.pow_add, Nat.sub_add_cancel below]

/-- Fewer than 54 digits below a place are less than 53 digits at it. -/
theorem amount_lt_of_place_lt (short : mantissa < 2 ^ 53) (full : 2 ^ 52 ≤ mantissa')
    (lower : place < place') : amount mantissa place < amount mantissa' place' :=
  calc mantissa * 2 ^ place < 2 ^ 53 * 2 ^ place := by gcongr
    _ = 2 ^ 52 * 2 ^ (place + 1) := by ring
    _ ≤ mantissa' * 2 ^ place' := by gcongr <;> omega

theorem Canonical.amount_lt (canonical : Canonical mantissa place)
    (canonical' : Canonical mantissa' place') (lower : place < place') :
    amount mantissa place < amount mantissa' place' :=
  amount_lt_of_place_lt canonical.short (canonical'.full.resolve_right (by omega)) lower

/-! ## Dropping digits -/

theorem shift_mantissa (extended : ExtendedMantissa) (digits : Nat) :
    (extended >>> digits).mantissa = extended.mantissa / 2 ^ digits := by
  induction digits with
  | zero => exact (Nat.div_one _).symm
  | succ digits ih =>
      have last : (extended >>> (digits + 1)).mantissa = (extended >>> digits).mantissa / 2 := rfl
      rw [last, ih, Nat.div_div_eq_div_mul, Nat.pow_succ]

theorem le_roundedMantissa (extended : ExtendedMantissa) :
    extended.mantissa ≤ extended.roundedMantissa ∧
      extended.roundedMantissa ≤ extended.mantissa + 1 := by
  obtain ⟨mantissa, roundBit, stickyBit⟩ := extended
  cases roundBit <;> cases stickyBit <;>
    simp only [ExtendedMantissa.roundedMantissa, ExtendedMantissa.accuracy,
      Accuracy.roundToNearestEven] <;> omega

/-- The place at which the last digit stands after rounding. -/
def target (mantissa place : Nat) : Nat := mantissa.log2 + place - 52

theorem targetExponent_eq (mantissa place : Nat) :
    Format.binary64.targetExponent (totalExponent mantissa ((place : Int) - 1074)) =
      (target mantissa place : Int) - 1074 := by
  have least : Format.binary64.minExponent = -1074 := by decide
  have digits : Format.binary64.mantissaBits = 53 := by decide
  rw [Format.targetExponent, totalExponent, least, digits, target]
  omega

/-- What is left of a mantissa after the digits below the target are dropped. -/
def floor (mantissa place : Nat) : Nat := mantissa / 2 ^ (target mantissa place - place)

theorem floor_canonical (pos : 0 < mantissa) (above : place ≤ target mantissa place) :
    Canonical (floor mantissa place) (target mantissa place) := by
  have low := Nat.log2_self_le (Nat.ne_of_gt pos)
  have high := Nat.lt_log2_self (n := mantissa)
  unfold floor
  by_cases lowest : target mantissa place = 0
  · have few : mantissa.log2 + 1 ≤ 53 := by
      unfold target at lowest
      omega
    have whole : target mantissa place - place = 0 := by omega
    rw [whole, Nat.pow_zero, Nat.div_one]
    exact ⟨pos, high.trans_le (Nat.pow_le_pow_right (by decide) few), .inr lowest⟩
  · generalize dropped : target mantissa place - place = digits
    have length : mantissa.log2 = 52 + digits := by
      unfold target at above lowest dropped
      omega
    rw [length] at low high
    have full : 2 ^ 52 ≤ mantissa / 2 ^ digits := by
      rw [Nat.le_div_iff_mul_le (Nat.two_pow_pos digits), ← Nat.pow_add]
      exact low
    have short : mantissa / 2 ^ digits < 2 ^ 53 := by
      rw [Nat.div_lt_iff_lt_mul (Nat.two_pow_pos digits), ← Nat.pow_add]
      exact high.trans_eq (congrArg _ (by omega))
    exact ⟨(Nat.two_pow_pos 52).trans_le full, short, .inl full⟩

/-- Dropping digits does not fall below a number of the format: that has either no digits below the
target, or none at it. -/
theorem le_amount_floor (pos : 0 < mantissa) (above : place ≤ target mantissa place)
    (canonical : Canonical mantissa' place')
    (reached : amount mantissa' place' ≤ amount mantissa place) :
    amount mantissa' place' ≤ amount (floor mantissa place) (target mantissa place) := by
  have rest := floor_canonical pos above
  by_cases lower : place' < target mantissa place
  · exact (canonical.amount_lt rest lower).le
  · obtain ⟨further, rfl⟩ := Nat.exists_eq_add_of_le (Nat.le_of_not_lt lower)
    unfold floor
    generalize dropped : target mantissa place - place = digits
    have split : target mantissa place = digits + place := by omega
    rw [split] at reached ⊢
    have scaled : mantissa' * 2 ^ further * 2 ^ digits ≤ mantissa := by
      refine Nat.le_of_mul_le_mul_right (Eq.trans_le ?_ reached) (Nat.two_pow_pos place)
      unfold amount
      ring
    calc amount mantissa' (digits + place + further)
        = mantissa' * 2 ^ further * 2 ^ (digits + place) := by unfold amount; ring
      _ ≤ mantissa / 2 ^ digits * 2 ^ (digits + place) := by
          gcongr
          exact (Nat.le_div_iff_mul_le (Nat.two_pow_pos digits)).mpr scaled

theorem exists_shift_floor (above : place ≤ target mantissa place) :
    ∃ extended : ExtendedMantissa,
      shiftToTargetExponent Format.binary64 mantissa ((place : Int) - 1074) .exact =
        (extended, (target mantissa place : Int) - 1074) ∧
      extended.mantissa = floor mantissa place := by
  have digits : ((target mantissa place : Int) - 1074 - ((place : Int) - 1074)).toNat =
      target mantissa place - place := by omega
  unfold shiftToTargetExponent shiftToExponent
  simp only [targetExponent_eq, digits]
  exact ⟨_, Prod.ext rfl (by dsimp only; omega), shift_mantissa _ _⟩

/-- Rounding up may make one digit too many. Then the mantissa is a power of two, and nothing is lost
when its last digit is dropped. -/
theorem exists_shift_carry (pos : 0 < mantissa) (short : mantissa ≤ 2 ^ 53)
    (full : 2 ^ 52 ≤ mantissa ∨ place = 0) :
    ∃ (extended : ExtendedMantissa) (place' : Nat),
      shiftToTargetExponent Format.binary64 mantissa ((place : Int) - 1074) .exact =
        (extended, (place' : Int) - 1074) ∧
      Canonical extended.mantissa place' ∧
      amount extended.mantissa place' = amount mantissa place := by
  rcases short.lt_or_eq with short | rfl
  · have few := (Nat.log2_lt (Nat.ne_of_gt pos)).mpr short
    have none : ((target mantissa place : Int) - 1074 - ((place : Int) - 1074)).toNat = 0 := by
      unfold target
      omega
    refine ⟨⟨mantissa, false, false⟩, place, ?_, ⟨pos, short, full⟩, rfl⟩
    unfold shiftToTargetExponent shiftToExponent
    simp only [targetExponent_eq, none]
    exact Prod.ext rfl (Int.add_zero _)
  · have one : ((target (2 ^ 53) place : Int) - 1074 - ((place : Int) - 1074)).toNat = 1 := by
      rw [target, Nat.log2_two_pow]
      omega
    refine ⟨⟨2 ^ 52, false, false⟩, place + 1, ?_, ⟨by decide, by decide, .inl (le_refl _)⟩, ?_⟩
    · unfold shiftToTargetExponent shiftToExponent
      simp only [targetExponent_eq, one]
      exact Prod.ext rfl (by push_cast; ring)
    · unfold amount
      ring

/-! ## Rounding an exact value -/

theorem log2_mul_two_pow (pos : 0 < mantissa) (digits : Nat) :
    (mantissa * 2 ^ digits).log2 = mantissa.log2 + digits := by
  have low := Nat.log2_self_le (Nat.ne_of_gt pos)
  have high := Nat.lt_log2_self (n := mantissa)
  rw [Nat.log2_eq_iff (Nat.ne_of_gt (Nat.mul_pos pos (Nat.two_pow_pos digits)))]
  constructor
  · rw [Nat.pow_add]
    gcongr
  · rw [Nat.add_right_comm, Nat.pow_add]
    gcongr

theorem decreaseExponent_eq (mantissa place lowest : Nat) :
    decreaseExponent mantissa ((place : Int) - 1074) ((lowest : Int) - 1074) =
      (mantissa * 2 ^ (place - lowest), ((place - (place - lowest) : Nat) : Int) - 1074) := by
  have digits : ((place : Int) - 1074 - ((lowest : Int) - 1074)).toNat = place - lowest := by omega
  unfold decreaseExponent
  simp only [digits, Nat.shiftLeft_eq]
  exact Prod.ext rfl (by dsimp only; omega)

/-- A positive value is rounded to a number that is at least every number of the format that it
reaches. -/
theorem exists_round (pos : 0 < mantissa) (place : Nat) :
    ∃ (mantissa' place' : Nat) (pos' : 0 < mantissa'),
      UnpackedFloat.round Format.binary64 .positive mantissa ((place : Int) - 1074) =
        .finite .positive mantissa' ((place' : Int) - 1074) pos' ∧
      Canonical mantissa' place' ∧
      ∀ mantissa'' place'', Canonical mantissa'' place'' →
        amount mantissa'' place'' ≤ amount mantissa place →
          amount mantissa'' place'' ≤ amount mantissa' place' := by
  have shifted := decreaseExponent_eq mantissa place (target mantissa place)
  generalize spare : place - target mantissa place = digits at shifted
  have pos₁ : 0 < mantissa * 2 ^ digits := Nat.mul_pos pos (Nat.two_pow_pos digits)
  have same : amount (mantissa * 2 ^ digits) (place - digits) = amount mantissa place := by
    unfold amount
    rw [Nat.mul_assoc, ← Nat.pow_add]
    congr 2
    omega
  have above : place - digits ≤ target (mantissa * 2 ^ digits) (place - digits) := by
    rw [target, log2_mul_two_pow pos]
    unfold target at spare
    omega
  obtain ⟨extended, dropped, left⟩ := exists_shift_floor above
  obtain ⟨least, most⟩ := le_roundedMantissa extended
  rw [left] at least most
  have canonical := floor_canonical pos₁ above
  obtain ⟨extended', place', carried, canonical', kept⟩ :=
    exists_shift_carry (canonical.pos.trans_le least) (most.trans canonical.short)
      (canonical.full.imp_left fun full => full.trans least)
  refine ⟨extended'.mantissa, place', canonical'.pos, ?_, canonical', ?_⟩
  · unfold UnpackedFloat.round
    simp only [targetExponent_eq, shifted]
    unfold roundWithAccuracy
    simp only [dropped, carried]
    exact dif_neg (Nat.ne_of_gt canonical'.pos)
  · intro mantissa'' place'' canonical'' reached
    rw [kept]
    refine (le_amount_floor pos₁ above canonical'' (reached.trans_eq same.symm)).trans ?_
    exact Nat.mul_le_mul_right _ least

end TeamPlanning.Floating
