import TeamPlanning.Proofs.Floating.Rounding

/-! # Amounts of floating point numbers

A number that is not negative is an amount of the smallest positive number, or infinite. Comparisons
are those of amounts, and neither a sum nor the way back to 64 bits makes an amount less. -/

set_option autoImplicit false

namespace TeamPlanning.Floating

open Float.Model Float.Model.UnpackedFloat

/-- What a number that is not negative amounts to. The place of a finite one may be too large for
64 bits. -/
inductive Amounts : UnpackedFloat → WithTop Nat → Prop where
  | zero (sign : Sign) : Amounts (.zero sign) 0
  | finite {mantissa place : Nat} (pos : 0 < mantissa) (canonical : Canonical mantissa place) :
      Amounts (.finite .positive mantissa ((place : Int) - 1074) pos) (amount mantissa place : Nat)
  | infinity : Amounts (.infinity .positive) ⊤

variable {u v : UnpackedFloat} {x y : WithTop Nat}

/-! ## Comparisons -/

theorem Canonical.compare_eq {mantissa place mantissa' place' : Nat}
    (canonical : Canonical mantissa place) (canonical' : Canonical mantissa' place') :
    (compare ((place : Int) - 1074) ((place' : Int) - 1074)).then (compare mantissa mantissa') =
      cmp (amount mantissa place) (amount mantissa' place') := by
  rcases Nat.lt_trichotomy place place' with lower | rfl | higher
  · have less := canonical.amount_lt canonical' lower
    rw [compare_lt_iff_lt.mpr (by omega), (cmp_eq_lt_iff _ _).mpr less]
    rfl
  · have scaled : StrictMono fun mantissa => amount mantissa place := fun _ _ less =>
      Nat.mul_lt_mul_of_pos_right less (Nat.two_pow_pos place)
    rw [compare_eq_iff_eq.mpr rfl, scaled.cmp_map_eq, cmp_eq_compare]
    rfl
  · have more := canonical'.amount_lt canonical higher
    rw [compare_gt_iff_gt.mpr (by omega), (cmp_eq_gt_iff _ _).mpr more]
    rfl

theorem Canonical.amount_pos {mantissa place : Nat} (canonical : Canonical mantissa place) :
    (0 : WithTop Nat) < (amount mantissa place : Nat) :=
  WithTop.coe_lt_coe.mpr (Nat.mul_pos canonical.pos (Nat.two_pow_pos place))

theorem Amounts.compare_eq (first : Amounts u x) (second : Amounts v y) :
    u.compare v = some (cmp x y) := by
  cases first with
  | zero =>
      cases second with
      | zero => rw [cmp_self_eq_eq]; rfl
      | finite _ canonical => rw [(cmp_eq_lt_iff _ _).mpr canonical.amount_pos]; rfl
      | infinity => rw [(cmp_eq_lt_iff _ _).mpr (WithTop.coe_lt_top 0)]; rfl
  | finite _ canonical =>
      cases second with
      | zero => rw [(cmp_eq_gt_iff _ _).mpr canonical.amount_pos]; rfl
      | finite _ canonical' =>
          rw [WithTop.coe_strictMono.cmp_map_eq, ← canonical.compare_eq canonical']
          rfl
      | infinity => rw [(cmp_eq_lt_iff _ _).mpr (WithTop.coe_lt_top _)]; rfl
  | infinity =>
      cases second with
      | zero => rw [(cmp_eq_gt_iff _ _).mpr (WithTop.coe_lt_top 0)]; rfl
      | finite => rw [(cmp_eq_gt_iff _ _).mpr (WithTop.coe_lt_top _)]; rfl
      | infinity => rw [cmp_self_eq_eq]; rfl

theorem Amounts.lt_iff (first : Amounts u x) (second : Amounts v y) : u.lt v = true ↔ x < y := by
  rw [UnpackedFloat.lt, first.compare_eq second, ← cmp_eq_lt_iff]
  cases cmp x y <;> decide

theorem Amounts.le_iff (first : Amounts u x) (second : Amounts v y) : u.le v = true ↔ x ≤ y := by
  rw [UnpackedFloat.le, first.compare_eq second, ← not_lt, ← cmp_eq_gt_iff]
  cases cmp x y <;> decide

/-- Above a number with as many digits as there are, the next is one more in its last digit. -/
theorem Amounts.succ_le {mantissa place : Nat} (amounts : Amounts u x) (full : 2 ^ 52 ≤ mantissa)
    (more : (amount mantissa place : Nat) < x) : (amount (mantissa + 1) place : Nat) ≤ x := by
  cases amounts with
  | zero => exact absurd more not_lt_bot
  | infinity => exact le_top
  | @finite mantissa' place' _ canonical =>
      have more := WithTop.coe_lt_coe.mp more
      have higher : place ≤ place' := Nat.le_of_not_lt fun lower =>
        Nat.lt_asymm more (amount_lt_of_place_lt canonical.short full lower)
      rw [← amount_decrease higher] at more ⊢
      refine WithTop.coe_le_coe.mpr (Nat.mul_le_mul_right _ ?_)
      exact Nat.lt_of_mul_lt_mul_right more

theorem Amounts.abs (amounts : Amounts u x) : Amounts u.abs x := by
  cases amounts with
  | zero => exact .zero .positive
  | finite pos canonical => exact .finite pos canonical
  | infinity => exact .infinity

/-! ## The 64 bits of a number -/

theorem append_implicit (mantissa : BitVec 52) :
    (1#1 ++ mantissa).toNat = 2 ^ 52 + mantissa.toNat := by
  rw [BitVec.toNat_append, ← Nat.shiftLeft_add_eq_or_of_lt mantissa.isLt]
  rfl

/-- What sign, exponent and mantissa bits stand for, if the exponent is that of a finite number. -/
def ofParts (sign : Sign) (exponent : BitVec 11) (mantissa : BitVec 52) : UnpackedFloat :=
  if exponent = 0#11 then
    if empty : mantissa = 0#52 then .zero sign
    else .finite sign mantissa.toNat (-1074) (BitVec.toNat_pos_of_ne_zero empty)
  else .finite sign (2 ^ 52 + mantissa.toNat) ((exponent.toNat : Int) - 1075) (by omega)

theorem unpack_of_finite {bits : BitVec 64}
    (finite : @unpackExponent Format.binary64 bits ≠ -1#11) :
    unpack Format.binary64 bits = ofParts (.ofBitVec (@unpackSign Format.binary64 bits))
      (@unpackExponent Format.binary64 bits) (@unpackMantissa Format.binary64 bits) := by
  have bias : Format.binary64.exponentBias = 1023 := by decide
  unfold UnpackedFloat.unpack ofParts
  simp only [append_implicit, bias]
  rw [if_neg finite]
  split
  · rename_i lowest
    simp only [lowest]
    rfl
  · rfl

theorem unpack_of_infinite {bits : BitVec 64}
    (infinite : @unpackExponent Format.binary64 bits = -1#11) :
    unpack Format.binary64 bits = .notANumber ∨
      ∃ sign, unpack Format.binary64 bits = .infinity sign := by
  unfold UnpackedFloat.unpack
  simp only [infinite, ↓reduceIte]
  split
  · exact .inr ⟨_, rfl⟩
  · exact .inl rfl

/-- What is read from 64 bits is a number of the format, if it is finite. -/
theorem unpack_cases (bits : BitVec 64) :
    unpack Format.binary64 bits = .notANumber ∨
      (∃ sign, unpack Format.binary64 bits = .infinity sign) ∨
      (∃ sign, unpack Format.binary64 bits = .zero sign) ∨
      ∃ (sign : Sign) (mantissa place : Nat) (pos : 0 < mantissa),
        unpack Format.binary64 bits = .finite sign mantissa ((place : Int) - 1074) pos ∧
          Canonical mantissa place := by
  by_cases infinite : @unpackExponent Format.binary64 bits = -1#11
  · exact (unpack_of_infinite infinite).imp_right .inl
  · have short : (@unpackMantissa Format.binary64 bits).toNat < 2 ^ 52 :=
      (@unpackMantissa Format.binary64 bits).isLt
    have read := unpack_of_finite infinite
    unfold ofParts at read
    refine .inr (.inr ?_)
    split at read
    · split at read
      · exact .inl ⟨_, read⟩
      · rename_i digits
        have pos := BitVec.toNat_pos_of_ne_zero digits
        exact .inr ⟨_, _, 0, pos, read, pos, short.trans (by decide), .inr rfl⟩
    · rename_i higher
      have pos := BitVec.toNat_pos_of_ne_zero higher
      generalize (@unpackExponent Format.binary64 bits).toNat = exponent at read pos
      have placed : (exponent : Int) - 1075 = ((exponent - 1 : Nat) : Int) - 1074 := by omega
      rw [placed] at read
      exact .inr ⟨_, _, exponent - 1, _, read, by omega, by omega, .inl (Nat.le_add_right _ _)⟩

theorem exists_amounts_unpack {bits : BitVec 64}
    (number : unpack Format.binary64 bits ≠ .notANumber)
    (nonneg : (unpack Format.binary64 bits).lt (.zero .positive) = false) :
    ∃ x, Amounts (unpack Format.binary64 bits) x := by
  rcases unpack_cases bits with none | ⟨sign, read⟩ | ⟨sign, read⟩ |
    ⟨sign, mantissa, place, pos, read, canonical⟩
  · exact absurd none number
  · rw [read] at nonneg ⊢
    cases sign with
    | negative => cases nonneg
    | positive => exact ⟨⊤, .infinity⟩
  · rw [read]
    exact ⟨0, .zero sign⟩
  · rw [read] at nonneg ⊢
    cases sign with
    | negative => cases nonneg
    | positive => exact ⟨_, .finite pos canonical⟩

theorem unpack_packComponents {sign : Sign} {exponent : BitVec 11} {mantissa : BitVec 52}
    (finite : exponent ≠ -1#11) :
    unpack Format.binary64 (packComponents Format.binary64 sign exponent mantissa) =
      ofParts sign exponent mantissa := by
  have placed : @unpackExponent Format.binary64
      (packComponents Format.binary64 sign exponent mantissa) = exponent :=
    unpackExponent_packComponents
  rw [unpack_of_finite (by rwa [placed]), placed, unpackSign_packComponents,
    Sign.ofBitVec_toBitVec, unpackMantissa_packComponents]

theorem ofParts_of_full {mantissa place : Nat} (pos : 0 < mantissa) (full : 2 ^ 52 ≤ mantissa)
    (short : mantissa < 2 ^ 53) (small : place < 2046) :
    BitVec.ofNat 11 (place + 1) ≠ -1#11 ∧
      ofParts .positive (BitVec.ofNat 11 (place + 1)) (BitVec.ofNat 52 mantissa) =
        .finite .positive mantissa ((place : Int) - 1074) pos := by
  have exponent : (BitVec.ofNat 11 (place + 1)).toNat = place + 1 := by
    rw [BitVec.toNat_ofNat, Nat.mod_eq_of_lt (by omega)]
  have finite : BitVec.ofNat 11 (place + 1) ≠ -1#11 := by
    intro same
    rw [same] at exponent
    change 2047 = place + 1 at exponent
    omega
  have higher : BitVec.ofNat 11 (place + 1) ≠ 0#11 := by
    intro same
    rw [same] at exponent
    cases exponent
  have low : (BitVec.ofNat 52 mantissa).toNat = mantissa - 2 ^ 52 := by
    rw [BitVec.toNat_ofNat, Nat.mod_eq_sub_mod full, Nat.mod_eq_of_lt (by omega)]
  have placed : ((place + 1 : Nat) : Int) - 1075 = (place : Int) - 1074 := by omega
  refine ⟨finite, (if_neg higher).trans ?_⟩
  simp only [exponent, low, placed, Nat.add_sub_of_le full]

theorem ofParts_of_lowest {mantissa : Nat} (pos : 0 < mantissa) (low : mantissa < 2 ^ 52) :
    ofParts .positive 0#11 (BitVec.ofNat 52 mantissa) =
      .finite .positive mantissa (-1074) pos := by
  have kept : (BitVec.ofNat 52 mantissa).toNat = mantissa := by
    rw [BitVec.toNat_ofNat, Nat.mod_eq_of_lt low]
  have digits : BitVec.ofNat 52 mantissa ≠ 0#52 := by
    intro empty
    rw [empty] at kept
    exact pos.ne kept
  refine (if_pos rfl).trans ((dif_neg digits).trans ?_)
  simp only [kept]

/-- A number whose place is too large for 64 bits becomes infinite. Others stay as they are. -/
theorem unpack_pack_finite {mantissa place : Nat} (pos : 0 < mantissa)
    (canonical : Canonical mantissa place) :
    unpack Format.binary64
        (pack Format.binary64 (.finite .positive mantissa ((place : Int) - 1074) pos)) =
      if 2046 ≤ place then .infinity .positive
      else .finite .positive mantissa ((place : Int) - 1074) pos := by
  have bias : Format.binary64.exponentBias = 1023 := by decide
  have digits : Format.binary64.mantissaBits = 53 := by decide
  have biased : ((place : Int) - 1074 + (1023 : Nat) + (52 : Nat)).toNat = place + 1 := by omega
  unfold UnpackedFloat.pack
  simp only [bias, digits, biased]
  by_cases large : 2046 ≤ place
  · rw [if_pos large, if_pos (by omega)]
    rfl
  · rw [if_neg large, if_neg (by omega)]
    by_cases full : 2 ^ 52 ≤ mantissa
    · have length := (Nat.le_log2 pos.ne').mpr full
      have short := (Nat.log2_lt pos.ne').mpr canonical.short
      obtain ⟨finite, same⟩ := ofParts_of_full pos full canonical.short (Nat.lt_of_not_le large)
      rw [if_pos (by omega)]
      exact (unpack_packComponents finite).trans same
    · have length := (Nat.log2_lt pos.ne').mpr (Nat.lt_of_not_le full)
      obtain rfl := canonical.full.resolve_left full
      rw [if_neg (by omega)]
      exact (unpack_packComponents (by decide)).trans
        (ofParts_of_lowest pos (Nat.lt_of_not_le full))

/-- Nothing becomes less on the way to 64 bits and back. -/
theorem Amounts.exists_pack (amounts : Amounts u x) :
    ∃ y, Amounts (unpack Format.binary64 (pack Format.binary64 u)) y ∧ x ≤ y := by
  cases amounts with
  | zero sign =>
      refine ⟨0, ?_, le_refl 0⟩
      cases sign
      · exact .zero .negative
      · exact .zero .positive
  | infinity => exact ⟨⊤, .infinity, le_refl ⊤⟩
  | finite pos canonical =>
      rw [unpack_pack_finite pos canonical]
      split
      · exact ⟨⊤, .infinity, le_top⟩
      · exact ⟨_, .finite pos canonical, le_refl _⟩

/-! ## Sums and differences -/

theorem Amounts.le_of_round {mantissa place mantissa' place' : Nat}
    (least : ∀ mantissa'' place'', Canonical mantissa'' place'' →
      amount mantissa'' place'' ≤ amount mantissa place →
        amount mantissa'' place'' ≤ amount mantissa' place')
    (amounts : Amounts u x) (reached : x ≤ (amount mantissa place : Nat)) :
    x ≤ (amount mantissa' place' : Nat) := by
  cases amounts with
  | zero => exact bot_le
  | finite _ canonical =>
      exact WithTop.coe_le_coe.mpr (least _ _ canonical (WithTop.coe_le_coe.mp reached))
  | infinity => exact absurd reached (WithTop.coe_lt_top _).not_ge

/-- A positive value is normalized to an amount that is at least every amount of the format that it
reaches. -/
theorem exists_normalize {mantissa : Nat} (pos : 0 < mantissa) (place : Nat) (zeroSign : Sign) :
    ∃ z, Amounts
        (UnpackedFloat.normalize Format.binary64 (mantissa : Int) ((place : Int) - 1074) zeroSign) z ∧
      ∀ {u x}, Amounts u x → x ≤ (amount mantissa place : Nat) → x ≤ z := by
  obtain ⟨mantissa', place', pos', rounded, canonical, least⟩ := exists_round pos place
  refine ⟨(amount mantissa' place' : Nat), ?_, fun amounts => amounts.le_of_round least⟩
  have above : compare (mantissa : Int) 0 = .gt := compare_gt_iff_gt.mpr (Int.natCast_pos.mpr pos)
  unfold UnpackedFloat.normalize
  simp only [above, Int.toNat_natCast, rounded]
  exact .finite pos' canonical

theorem min_exponent (place place' : Nat) :
    min ((place : Int) - 1074) ((place' : Int) - 1074) = ((min place place' : Nat) : Int) - 1074 := by
  omega

theorem Amounts.exists_add (first : Amounts u x) (second : Amounts v y) :
    ∃ z, Amounts (add Format.binary64 u v) z ∧ x ≤ z ∧ y ≤ z := by
  cases first with
  | zero sign =>
      cases second with
      | zero sign' =>
          refine ⟨0, ?_, le_refl 0, le_refl 0⟩
          cases sign <;> cases sign' <;> exact .zero _
      | finite pos canonical => exact ⟨_, .finite pos canonical, bot_le, le_refl _⟩
      | infinity => exact ⟨⊤, .infinity, le_top, le_refl ⊤⟩
  | @finite mantissa place pos canonical =>
      cases second with
      | zero => exact ⟨_, .finite pos canonical, le_refl _, bot_le⟩
      | @finite mantissa' place' pos' canonical' =>
          let lowest := min place place'
          let whole := mantissa * 2 ^ (place - lowest) + mantissa' * 2 ^ (place' - lowest)
          have added : amount whole lowest = amount mantissa place + amount mantissa' place' := by
            rw [← amount_decrease (Nat.min_le_left place place'),
              ← amount_decrease (Nat.min_le_right place place')]
            exact Nat.add_mul _ _ _
          have pos'' : 0 < whole :=
            Nat.add_pos_left (Nat.mul_pos pos (Nat.two_pow_pos _)) _
          obtain ⟨z, amounts, least⟩ := exists_normalize pos'' lowest .positive
          refine ⟨z, ?_, least (.finite pos canonical) ?_, least (.finite pos' canonical') ?_⟩
          · simp only [UnpackedFloat.add, min_exponent, decreaseExponent_eq, Sign.apply]
            exact_mod_cast amounts
          · rw [added]
            exact WithTop.coe_le_coe.mpr (Nat.le_add_right _ _)
          · rw [added]
            exact WithTop.coe_le_coe.mpr (Nat.le_add_left _ _)
      | infinity => exact ⟨⊤, .infinity, le_top, le_refl ⊤⟩
  | infinity =>
      refine ⟨⊤, ?_, le_refl ⊤, le_top⟩
      cases second <;> exact .infinity

theorem le_coe_sub {whole part : Nat} (reached : (part : WithTop Nat) + x ≤ (whole : Nat)) :
    x ≤ (whole - part : Nat) := by
  induction x with
  | top => exact absurd reached (by simp)
  | coe rest =>
      have reached : part + rest ≤ whole := WithTop.coe_le_coe.mp reached
      exact WithTop.coe_le_coe.mpr (Nat.le_sub_of_add_le' reached)

/-- A difference is at least every amount that makes up for it. -/
theorem Amounts.exists_sub (first : Amounts u x) (second : Amounts v y) (more : y < x) :
    ∃ z, Amounts (sub Format.binary64 u v) z ∧ ∀ {w t}, Amounts w t → y + t ≤ x → t ≤ z := by
  cases first with
  | zero => exact absurd more not_lt_bot
  | @finite mantissa place pos canonical =>
      cases second with
      | zero =>
          refine ⟨_, .finite pos canonical, fun _ reached => ?_⟩
          rwa [zero_add] at reached
      | @finite mantissa' place' pos' canonical' =>
          let lowest := min place place'
          let whole := mantissa * 2 ^ (place - lowest) - mantissa' * 2 ^ (place' - lowest)
          have removed : amount whole lowest = amount mantissa place - amount mantissa' place' := by
            rw [← amount_decrease (Nat.min_le_left place place'),
              ← amount_decrease (Nat.min_le_right place place')]
            exact Nat.sub_mul _ _ _
          have less : mantissa' * 2 ^ (place' - lowest) < mantissa * 2 ^ (place - lowest) := by
            refine Nat.lt_of_mul_lt_mul_right (a := 2 ^ lowest) ?_
            have more := WithTop.coe_lt_coe.mp more
            rw [← amount_decrease (Nat.min_le_left place place'),
              ← amount_decrease (Nat.min_le_right place place')] at more
            exact more
          obtain ⟨z, amounts, least⟩ :=
            exists_normalize (Nat.sub_pos_of_lt less : 0 < whole) lowest .positive
          refine ⟨z, ?_, fun makesUp reached => least makesUp ?_⟩
          · simp only [UnpackedFloat.sub, min_exponent, decreaseExponent_eq, Sign.apply]
            rw [← Nat.cast_sub less.le]
            exact amounts
          · rw [removed]
            exact le_coe_sub reached
      | infinity => exact absurd more not_top_lt
  | infinity =>
      refine ⟨⊤, ?_, fun _ _ => le_top⟩
      cases second with
      | zero => exact .infinity
      | finite => exact .infinity
      | infinity => exact absurd more (lt_irrefl ⊤)

end TeamPlanning.Floating
