import TeamPlanning.Proofs.Floating.Amounts
import TeamPlanning.Proofs.Rows
import TeamPlanning.Weight.Float

/-! # Initial distributions in floating point

A model that is found sound has an initial distribution of numbers between zero and one, up to the
tolerance, with one exception: if some entry is not a number then neither is the sum, and nothing is
found wrong with it. -/

set_option autoImplicit false

namespace TeamPlanning

namespace Floating

open Float.Model Float.Model.UnpackedFloat

variable {v w total : Float} {x y : WithTop Nat} {weights : List Float}

/-! ## Operations and their 64 bits -/

theorem unpack_add (v w : Float) : (v + w).toModel.unpack = unpack Format.binary64
    (pack Format.binary64 (add Format.binary64 v.toModel.unpack w.toModel.unpack)) := rfl

theorem unpack_sub (v w : Float) : (v - w).toModel.unpack = unpack Format.binary64
    (pack Format.binary64 (sub Format.binary64 v.toModel.unpack w.toModel.unpack)) := rfl

theorem unpack_abs (w : Float) : (Weight.abs w).toModel.unpack = unpack Format.binary64
    (pack Format.binary64 w.toModel.unpack.abs) := rfl

theorem lt_iff_unpack (v w : Float) : v < w ↔ v.toModel.unpack.lt w.toModel.unpack = true :=
  decide_eq_true_iff

theorem le_iff_unpack (v w : Float) : v ≤ w ↔ v.toModel.unpack.le w.toModel.unpack = true :=
  decide_eq_true_iff

/-! ## What is not a number -/

theorem isNaN_iff : w.isNaN = true ↔ w.toModel.unpack = .notANumber :=
  UnpackedFloat.isNaN_iff

theorem isNaN_add (missing : v.isNaN = true ∨ w.isNaN = true) : (v + w).isNaN = true := by
  have sum : add Format.binary64 v.toModel.unpack w.toModel.unpack = .notANumber := by
    rcases missing with missing | missing
    · rw [isNaN_iff.mp missing]
      rfl
    · rw [isNaN_iff.mp missing]
      cases v.toModel.unpack <;> rfl
  rw [isNaN_iff, unpack_add, sum]
  rfl

theorem isNaN_foldl (missing : total.isNaN = true ∨ ∃ w ∈ weights, w.isNaN = true) :
    (weights.foldl (· + ·) total).isNaN = true := by
  induction weights generalizing total with
  | nil => simpa using missing
  | cons w weights ih =>
      apply ih
      rw [List.exists_mem_cons_iff, ← or_assoc] at missing
      exact missing.imp_left isNaN_add

theorem isNaN_sum (missing : ∃ w ∈ weights, w.isNaN = true) : (Weight.sum weights).isNaN = true :=
  isNaN_foldl (.inr missing)

theorem not_lt_of_isNaN (missing : w.isNaN = true) : ¬ v < w := by
  rw [lt_iff_unpack, isNaN_iff.mp missing]
  cases v.toModel.unpack <;> exact Bool.false_ne_true

/-- The distance from one is not a number either, and so not above the tolerance. -/
theorem strays_of_isNaN (missing : w.isNaN = true) : Weight.strays w = false := by
  have distance : (Weight.abs (w - Weight.one)).isNaN = true := by
    rw [isNaN_iff, unpack_abs, unpack_sub, isNaN_iff.mp missing]
    rfl
  exact decide_eq_false (not_lt_of_isNaN distance)

/-! ## Weights as amounts -/

/-- The weight is not negative, and this is what it amounts to. -/
def Weighs (w : Float) (x : WithTop Nat) : Prop := Amounts w.toModel.unpack x

theorem exists_weighs (number : w.isNaN = false) (nonneg : ¬ w < Weight.zero) :
    ∃ x, Weighs w x := by
  rw [lt_iff_unpack, Bool.not_eq_true] at nonneg
  refine exists_amounts_unpack (fun missing => ?_) nonneg
  rw [isNaN_iff.mpr missing] at number
  cases number

namespace Weighs

theorem le_iff (first : Weighs v x) (second : Weighs w y) : v ≤ w ↔ x ≤ y := by
  rw [le_iff_unpack, Amounts.le_iff first second]

theorem lt_iff (first : Weighs v x) (second : Weighs w y) : v < w ↔ x < y := by
  rw [lt_iff_unpack, Amounts.lt_iff first second]

theorem exists_add (first : Weighs v x) (second : Weighs w y) :
    ∃ z, Weighs (v + w) z ∧ x ≤ z ∧ y ≤ z := by
  obtain ⟨z, amounts, left, right⟩ := Amounts.exists_add first second
  obtain ⟨z', packed, kept⟩ := amounts.exists_pack
  exact ⟨z', packed, left.trans kept, right.trans kept⟩

/-- No term is more than the sum, however its partial sums are rounded. -/
theorem exists_foldl (start : Weighs total y) (each : ∀ w ∈ weights, ∃ x, Weighs w x) :
    ∃ z, Weighs (weights.foldl (· + ·) total) z ∧ y ≤ z ∧
      ∀ w ∈ weights, w ≤ weights.foldl (· + ·) total := by
  induction weights generalizing total y with
  | nil => exact ⟨y, start, le_refl y, List.forall_mem_nil _⟩
  | cons w weights ih =>
      obtain ⟨⟨x, first⟩, others⟩ := List.forall_mem_cons.mp each
      obtain ⟨z, added, low, term⟩ := start.exists_add first
      obtain ⟨z', summed, rest, terms⟩ := ih added others
      refine ⟨z', summed, low.trans rest, List.forall_mem_cons.mpr ⟨?_, terms⟩⟩
      exact (first.le_iff summed).mpr (term.trans rest)

end Weighs

/-! ## One and the tolerance -/

theorem weighs_of_unpack {mantissa place : Nat} (canonical : Canonical mantissa place)
    (read : w.toModel.unpack = .finite .positive mantissa ((place : Int) - 1074) canonical.pos) :
    Weighs w (amount mantissa place : Nat) := by
  rw [Weighs, read]
  exact .finite canonical.pos canonical

theorem weighs_zero : Weighs Weight.zero 0 := .zero .positive

theorem weighs_emptySum : Weighs Weight.emptySum 0 := .zero .negative

theorem exists_weighs_sum (each : ∀ w ∈ weights, ∃ x, Weighs w x) :
    ∃ z, Weighs (Weight.sum weights) z ∧ ∀ w ∈ weights, w ≤ Weight.sum weights := by
  obtain ⟨z, summed, _, terms⟩ := weighs_emptySum.exists_foldl each
  exact ⟨z, summed, terms⟩

theorem weighs_one : Weighs Weight.one (amount (2 ^ 52) 1022 : Nat) :=
  weighs_of_unpack ⟨by decide, by decide, .inl (le_refl _)⟩ rfl

theorem weighs_tolerance : Weighs Weight.tolerance (amount 4722366482869645 1002 : Nat) :=
  weighs_of_unpack ⟨by decide, by decide, .inl (by decide)⟩ rfl

theorem weighs_bound :
    Weighs (Weight.one + Weight.tolerance) (amount (2 ^ 52 + 4503599627) 1022 : Nat) :=
  weighs_of_unpack ⟨by decide, by decide, .inl (by decide)⟩ rfl

theorem amount_strictMono (place : Nat) : StrictMono fun mantissa =>
    ((amount mantissa place : Nat) : WithTop Nat) :=
  fun _ _ less => WithTop.coe_lt_coe.mpr (Nat.mul_lt_mul_of_pos_right less (Nat.two_pow_pos place))

theorem amount_add (mantissa mantissa' place : Nat) :
    ((amount mantissa place : Nat) : WithTop Nat) + (amount mantissa' place : Nat) =
      (amount (mantissa + mantissa') place : Nat) :=
  WithTop.coe_inj.mpr (Nat.add_mul _ _ _).symm

/-- The distance from one is at least every amount that makes up for it. -/
theorem exists_distance (weighs : Weighs w x) (above : (amount (2 ^ 52) 1022 : Nat) < x) :
    ∃ z, Weighs (Weight.abs (w - Weight.one)) z ∧
      ∀ {u t}, Amounts u t → (amount (2 ^ 52) 1022 : Nat) + t ≤ x → t ≤ z := by
  obtain ⟨z, amounts, least⟩ := Amounts.exists_sub weighs weighs_one above
  obtain ⟨z', packed, kept⟩ := amounts.exists_pack
  obtain ⟨z'', distance, kept'⟩ := packed.abs.exists_pack
  exact ⟨z'', distance, fun makesUp reached => ((least makesUp reached).trans kept).trans kept'⟩

/-- The first number above one and the tolerance is so far above one that rounding does not hide
it. -/
theorem strays_of_excess (weighs : Weighs w x) (excess : ¬ w ≤ Weight.one + Weight.tolerance) :
    Weight.strays w = true := by
  rw [weighs.le_iff weighs_bound, not_le] at excess
  have next : (amount (2 ^ 52 + 4503599628) 1022 : Nat) ≤ x :=
    Amounts.succ_le weighs (by decide) excess
  obtain ⟨z, distance, least⟩ :=
    exists_distance weighs ((amount_strictMono 1022 (by decide)).trans_le next)
  have far : Canonical (4503599628 * 2 ^ (1022 - 1002)) 1002 :=
    ⟨by decide, by decide, .inl (by decide)⟩
  have reached : (amount (4503599628 * 2 ^ (1022 - 1002)) 1002 : Nat) ≤ z := by
    refine least (.finite far.pos far) ?_
    rw [amount_decrease (by decide), amount_add]
    exact next
  have shows : (amount 4722366482869645 1002 : Nat) < z :=
    (amount_strictMono 1002 (by decide)).trans_le reached
  exact decide_eq_true ((weighs_tolerance.lt_iff distance).mpr shows)

end Floating

namespace Model

open Floating

/-- A number between zero and one, up to the tolerance. -/
def Admissible (p : Float) : Prop :=
  p.isNaN = false ∧ Weight.zero ≤ p ∧ p ≤ Weight.one + Weight.tolerance

/-- Without an entry that is not a number, no entry of a sum that does not stray is too large. -/
theorem admissible_of_passes {distribution : List Float}
    (numbers : ∀ p ∈ distribution, p.isNaN = false)
    (straight : Weight.strays (Weight.sum distribution) = false)
    (nonneg : ∀ p ∈ distribution, Weight.lt p Weight.zero = false) :
    ∀ p ∈ distribution, Admissible p := by
  have weighed : ∀ p ∈ distribution, ∃ x, Weighs p x := fun p member =>
    exists_weighs (numbers p member) (of_decide_eq_false (nonneg p member))
  obtain ⟨z, summed, terms⟩ := exists_weighs_sum weighed
  have bounded : Weight.sum distribution ≤ Weight.one + Weight.tolerance := by
    by_contra excess
    rw [strays_of_excess summed excess] at straight
    cases straight
  intro p member
  obtain ⟨x, weighs⟩ := weighed p member
  refine ⟨numbers p member, (weighs_zero.le_iff weighs).mpr bot_le, ?_⟩
  rw [weighs.le_iff weighs_bound]
  exact ((weighs.le_iff summed).mp (terms p member)).trans ((summed.le_iff weighs_bound).mp bounded)

/-- A check that passes vouches for the initial distribution exactly if no entry is missing, or else
if the check cannot pass: because some entry is negative, or for the sake of the tables. -/
theorem validated_initial_iff {model next : Model Float} {distribution : List Float}
    (written : model.writeInitial distribution = .ok next) :
    (next.validate = .ok () → ∀ p ∈ next.initial, Admissible p) ↔
      (∀ p ∈ distribution, p.isNaN = false) ∨ (∃ p ∈ distribution, p < Weight.zero) ∨
        ¬ (model.transitions.validate = .ok () ∧
          (model.events.getD model.observations).validate = .ok ()) := by
  unfold writeInitial at written
  split at written
  · cases written
    rw [validate_eq_ok_iff]
    constructor
    · intro vouches
      by_contra unsound
      simp only [not_or, not_forall, not_exists, not_and, not_not] at unsound
      obtain ⟨⟨p, member, missing⟩, nonneg, transitions, observations⟩ := unsound
      have missing : p.isNaN = true := by simpa using missing
      have straight := strays_of_isNaN (isNaN_sum ⟨p, member, missing⟩)
      have admissible := vouches ⟨transitions, observations, straight,
        fun q listed => decide_eq_false (nonneg q listed)⟩ p member
      rw [admissible.1] at missing
      cases missing
    · intro given valid
      obtain ⟨transitions, observations, straight, nonneg⟩ := valid
      rcases given with numbers | ⟨p, member, negative⟩ | unsound
      · exact admissible_of_passes numbers straight nonneg
      · exact absurd negative (of_decide_eq_false (nonneg p member))
      · exact absurd ⟨transitions, observations⟩ unsound
  · cases written

/-- One state that is never left, for one agent with one action and one observation. -/
def still : Except Fault (Model Float) := do
  let blank ← create 1 [⟨1, 1⟩] .dense
  let model ← blank.writeTransition 0 0 0 Weight.one
  model.writeObservation 0 0 0 Weight.one

/-- If the still model is found sound with the distribution, the parts of that check. -/
theorem exists_still (distribution : List Float) (sound : (still >>= fun model =>
      model.writeInitial distribution >>= fun next => next.validate).isOk = true) :
    ∃ model next : Model Float, still = .ok model ∧ model.writeInitial distribution = .ok next ∧
      next.initial = distribution ∧ next.validate = .ok () := by
  obtain ⟨_, valid⟩ := exists_of_isOk sound
  obtain ⟨model, made, valid⟩ := bind_eq_ok_iff.mp valid
  obtain ⟨next, written, valid⟩ := bind_eq_ok_iff.mp valid
  refine ⟨model, next, made, written, ?_, valid⟩
  unfold writeInitial at written
  split at written
  · cases written
    rfl
  · cases written

theorem validated_initial_iff_certain : ∃ model next : Model Float, still = .ok model ∧
    model.writeInitial [Weight.one] = .ok next ∧ next.validate = .ok () ∧
      ∀ p ∈ next.initial, Admissible p := by
  obtain ⟨model, next, made, written, _, valid⟩ := exists_still [Weight.one] (by decide +kernel)
  refine ⟨model, next, made, written, valid, ?_⟩
  exact (validated_initial_iff written).mpr (.inl (by decide +kernel)) valid

theorem validated_initial_not_a_number : ∃ model next : Model Float, still = .ok model ∧
    model.writeInitial [Weight.zero / Weight.zero] = .ok next ∧ next.validate = .ok () ∧
      ¬ ∀ p ∈ next.initial, Admissible p := by
  obtain ⟨model, next, made, written, initial, valid⟩ :=
    exists_still [Weight.zero / Weight.zero] (by decide +kernel)
  refine ⟨model, next, made, written, valid, fun vouched => ?_⟩
  have number := (vouched (Weight.zero / Weight.zero) (initial ▸ List.mem_singleton_self _)).1
  have missing : (Weight.zero / Weight.zero : Float).isNaN = true := by decide +kernel
  rw [number] at missing
  cases missing

end Model

end TeamPlanning
