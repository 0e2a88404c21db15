import Mathlib.Algebra.BigOperators.Group.List.Lemmas
import Mathlib.Data.List.TakeWhile
import TeamPlanning.Bounded
import TeamPlanning.Proofs.Outcome

/-! # Bounded products

A product is formed factor by factor, and a step that leaves the range is refused. Up to the first zero
nothing that is formed is larger than what comes later, and from there on everything is zero. So a
product is refused just if the factors before its first zero leave the range, and with a zero among the
factors this may depend on their order. -/

set_option autoImplicit false

namespace TeamPlanning.Bounded

/-- The factors before the first zero. -/
def leading (factors : List Nat) : List Nat := factors.takeWhile (· ≠ 0)

def nonzero (factors : List Nat) : List Nat := factors.filter (· ≠ 0)

variable {factors other : List Nat}

@[simp] theorem leading_nil : leading [] = [] := rfl

@[simp] theorem leading_zero_cons (factors : List Nat) : leading (0 :: factors) = [] := rfl

theorem leading_cons {factor : Nat} (positive : factor ≠ 0) (factors : List Nat) :
    leading (factor :: factors) = factor :: leading factors := by
  simp [leading, positive]

theorem prod_leading_pos (factors : List Nat) : 0 < (leading factors).prod := by
  refine List.prod_pos_iff_forall_pos_nat.mpr fun factor member => ?_
  have positive := List.mem_takeWhile_imp member
  exact Nat.pos_of_ne_zero (of_decide_eq_true positive)

theorem prod_le_leading (factors : List Nat) : factors.prod ≤ (leading factors).prod := by
  induction factors with
  | nil => exact Nat.le_refl _
  | cons factor factors ih =>
      by_cases zero : factor = 0
      · simp [zero]
      · rw [leading_cons zero, List.prod_cons, List.prod_cons]
        exact Nat.mul_le_mul_left factor ih

theorem leading_of_no_zero (free : 0 ∉ factors) : leading factors = factors :=
  List.takeWhile_eq_self_iff.mpr fun _ member => decide_eq_true (ne_of_mem_of_not_mem member free)

theorem nonzero_of_no_zero (free : 0 ∉ factors) : nonzero factors = factors :=
  List.filter_eq_self.mpr fun _ member => decide_eq_true (ne_of_mem_of_not_mem member free)

theorem leading_append_zeros {zeros : List Nat} (positive : ∀ factor ∈ factors, factor ≠ 0)
    (none : ∀ factor ∈ zeros, factor = 0) : leading (factors ++ zeros) = factors := by
  have ahead : ∀ factor ∈ factors, decide (factor ≠ 0) = true := fun factor member =>
    decide_eq_true (positive factor member)
  rw [leading, List.takeWhile_append_of_pos ahead]
  cases zeros with
  | nil => simp
  | cons first rest => simp [none first List.mem_cons_self]

theorem prod_leading_le_nonzero (factors : List Nat) :
    (leading factors).prod ≤ (nonzero factors).prod := by
  have picked : (leading factors).Sublist (nonzero factors) := by
    have kept := (List.takeWhile_sublist (l := factors) (· ≠ 0)).filter (· ≠ 0)
    rwa [List.filter_eq_self.mpr fun _ => List.mem_takeWhile_imp] at kept
  refine Nat.le_of_dvd ?_ picked.prod_dvd_prod
  refine List.prod_pos_iff_forall_pos_nat.mpr fun factor member => ?_
  exact Nat.pos_of_ne_zero (of_decide_eq_true (List.mem_filter.mp member).2)

/-! ## What is refused -/

theorem foldlM_mul_eq_ok_iff {start product : Nat} (small : start < wordBound) :
    factors.foldlM mul start = .ok product ↔
      start * (leading factors).prod < wordBound ∧ product = start * factors.prod := by
  induction factors generalizing start with
  | nil => simp [small, pure, Except.pure, eq_comm]
  | cons factor factors ih =>
      rw [List.foldlM_cons]
      by_cases fits : start * factor < wordBound
      · rw [bind_of_eq_ok (mul_eq_ok_iff.mpr ⟨fits, rfl⟩), ih fits, List.prod_cons, ← Nat.mul_assoc]
        by_cases zero : factor = 0
        · have unit : 0 < wordBound := Nat.zero_lt_of_lt small
          simp [zero, unit, small]
        · rw [leading_cons zero, List.prod_cons, ← Nat.mul_assoc]
      · have positive : factor ≠ 0 := by
          rintro rfl
          exact fits (Nat.zero_lt_of_lt small)
        -- What is refused here is not larger than what the factors up to the next zero come to.
        have grows : start * factor ≤ start * factor * (leading factors).prod :=
          Nat.le_mul_of_pos_right _ (prod_leading_pos factors)
        have refused : mul start factor = .error (.tooLarge (.product start factor)) := if_neg fits
        rw [bind_of_eq_error refused, leading_cons positive, List.prod_cons, ← Nat.mul_assoc]
        constructor
        · intro formed
          cases formed
        · exact fun given => absurd (grows.trans_lt given.1) fits

/-- A product is refused just if the factors before its first zero leave the range. -/
theorem prod_eq_ok_iff {product : Nat} :
    prod factors = .ok product ↔ (leading factors).prod < wordBound ∧ product = factors.prod := by
  rw [prod, foldlM_mul_eq_ok_iff (by decide), Nat.one_mul, Nat.one_mul]

theorem prod_eq_ok {product : Nat} (formed : prod factors = .ok product) :
    product = factors.prod ∧ product < wordBound := by
  obtain ⟨fits, rfl⟩ := prod_eq_ok_iff.mp formed
  exact ⟨rfl, (prod_le_leading factors).trans_lt fits⟩

/-! ## The order of the factors -/

/-- The product is in range in every order of the factors. -/
def AlwaysFits (factors : List Nat) : Prop := (nonzero factors).prod < wordBound

/-- The product is in range in no order of the factors. -/
def NeverFits (factors : List Nat) : Prop := 0 ∉ factors ∧ wordBound ≤ factors.prod

instance (factors : List Nat) : Decidable (AlwaysFits factors) :=
  inferInstanceAs (Decidable ((nonzero factors).prod < wordBound))

instance (factors : List Nat) : Decidable (NeverFits factors) :=
  inferInstanceAs (Decidable (0 ∉ factors ∧ wordBound ≤ factors.prod))

theorem AlwaysFits.leading_lt (fits : AlwaysFits factors) (same : other.Perm factors) :
    (leading other).prod < wordBound := by
  have equal : (nonzero other).prod = (nonzero factors).prod := (same.filter _).prod_eq
  exact (prod_leading_le_nonzero other).trans_lt (equal ▸ fits)

theorem NeverFits.le_leading (exceeds : NeverFits factors) (same : other.Perm factors) :
    wordBound ≤ (leading other).prod := by
  obtain ⟨free, large⟩ := exceeds
  rw [← same.mem_iff] at free
  rwa [leading_of_no_zero free, same.prod_eq]

theorem alwaysFits_of_no_zero (free : 0 ∉ factors) (some : ¬ NeverFits factors) :
    AlwaysFits factors := by
  rw [AlwaysFits, nonzero_of_no_zero free]
  exact Nat.not_le.mp fun large => some ⟨free, large⟩

section Items

variable {α : Type}

/-- With the zeros behind all others, every factor that is not zero comes before the first zero. -/
theorem exists_zeros_last (size : α → Nat) (items : List α) :
    ∃ last : List α, last.Perm items ∧ leading (last.map size) = nonzero (items.map size) := by
  refine ⟨_, List.filter_append_perm (fun item => decide (size item ≠ 0)) items, ?_⟩
  rw [List.map_append, leading_append_zeros, nonzero, List.filter_map]
  · rfl
  · intro factor member
    obtain ⟨item, kept, rfl⟩ := List.mem_map.mp member
    exact of_decide_eq_true (List.mem_filter.mp kept).2
  · intro factor member
    obtain ⟨item, kept, rfl⟩ := List.mem_map.mp member
    simpa using (List.mem_filter.mp kept).2

theorem exists_zero_first {size : α → Nat} {items : List α} (held : 0 ∈ items.map size) :
    ∃ item rest, (item :: rest).Perm items ∧ size item = 0 := by
  obtain ⟨item, member, zero⟩ := List.mem_map.mp held
  obtain ⟨before, after, rfl⟩ := List.append_of_mem member
  exact ⟨item, before ++ after, List.perm_middle.symm, zero⟩

theorem leading_lt_of_zero_first {size : α → Nat} {item : α} (zero : size item = 0)
    (rest : List α) : (leading ((item :: rest).map size)).prod < wordBound := by
  rw [List.map_cons, zero, leading_zero_cons]
  decide

end Items

end TeamPlanning.Bounded
