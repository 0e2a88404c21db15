import TeamPlanning.Proofs.Stages

/-! # Exact counts

Powers, sums of powers and layouts in closed form answer exactly if what they count fits into a
machine word. What they form on the way is never larger than what they answer, so nothing is refused
too early; and the only fault is that the result is too large. -/

set_option autoImplicit false

namespace TeamPlanning

open scoped BigOperators

def Fault.IsExcess (fault : Fault) : Prop := ∃ excess, fault = .tooLarge excess

/-! ## Refusals -/

section Refusals

variable {α : Type}

/-- If the operation gives no answer, its result is too large. -/
def OnlyExceeds (outcome : Except Fault α) : Prop := Meets outcome (fun _ => True) Fault.IsExcess

theorem OnlyExceeds.eq_error {outcome : Except Fault α} (exceeds : OnlyExceeds outcome)
    (refused : ∀ value, outcome ≠ .ok value) : ∃ excess, outcome = .error (.tooLarge excess) := by
  cases outcome with
  | ok value => exact absurd rfl (refused value)
  | error fault =>
      obtain ⟨excess, rfl⟩ := exceeds
      exact ⟨excess, rfl⟩

end Refusals

namespace Bounded

theorem onlyExceeds_mul (a b : Nat) : OnlyExceeds (mul a b) := by
  unfold mul
  split
  · trivial
  · exact ⟨_, rfl⟩

theorem onlyExceeds_add (a b : Nat) : OnlyExceeds (add a b) := by
  unfold add
  split
  · trivial
  · exact ⟨_, rfl⟩

theorem onlyExceeds_addPowers (base terms power total : Nat) :
    OnlyExceeds (addPowers base terms power total) := by
  fun_induction addPowers base terms power total with
  | case1 power total => trivial
  | case2 power total => exact onlyExceeds_add total power
  | case3 terms power total ih =>
      refine (onlyExceeds_add total power).bind fun total _ => ?_
      exact (onlyExceeds_mul power base).bind fun power _ => ih total power

theorem onlyExceeds_pow (base exponent : Nat) : OnlyExceeds (pow base exponent) := by
  unfold pow
  split
  · trivial
  · split
    · trivial
    · split
      · split
        · trivial
        · exact ⟨_, rfl⟩
      · exact ⟨_, rfl⟩

/-! ## Powers -/

theorem wordBound_le_pow {base exponent : Nat} (large : 2 ≤ base) (long : 64 ≤ exponent) :
    wordBound ≤ base ^ exponent :=
  calc wordBound ≤ base ^ 64 := Nat.pow_le_pow_left large 64
    _ ≤ base ^ exponent := Nat.pow_le_pow_right (Nat.zero_lt_of_lt large) long

theorem pow_eq_ok_iff {base exponent result : Nat} :
    pow base exponent = .ok result ↔ base ^ exponent < wordBound ∧ result = base ^ exponent := by
  have unit : 1 < wordBound := by decide
  unfold pow
  split
  · rename_i zero
    subst zero
    cases exponent with
    | zero => simp [unit, eq_comm]
    | succ exponent => simp [Nat.zero_lt_of_lt unit, eq_comm]
  · split
    · rename_i one
      simp [one, unit, eq_comm]
    · split
      · split <;> rename_i fits
        · simp [show base ^ exponent < wordBound from fits, eq_comm]
        · simp [show ¬ base ^ exponent < wordBound from fits]
      · have large : wordBound ≤ base ^ exponent := wordBound_le_pow (by omega) (by omega)
        simp [Nat.not_lt.mpr large]

/-! ## Counts -/

/-- The operation answers the count if it is in range, and otherwise its result is too large. -/
def Counts (outcome : Except Fault Nat) (count : Nat) : Prop :=
  if count < wordBound then outcome = .ok count
  else ∃ excess, outcome = .error (.tooLarge excess)

theorem counts_of_onlyExceeds {outcome : Except Fault Nat} {count : Nat}
    (exceeds : OnlyExceeds outcome)
    (answers : ∀ result, outcome = .ok result ↔ count < wordBound ∧ result = count) :
    Counts outcome count := by
  unfold Counts
  split
  · rename_i fits
    exact (answers count).mpr ⟨fits, rfl⟩
  · rename_i large
    exact exceeds.eq_error fun result success => large ((answers result).mp success).1

theorem counts_mul (a b : Nat) : Counts (mul a b) (a * b) :=
  counts_of_onlyExceeds (onlyExceeds_mul a b) fun _ => mul_eq_ok_iff

theorem counts_pow (base exponent : Nat) : Counts (pow base exponent) (base ^ exponent) :=
  counts_of_onlyExceeds (onlyExceeds_pow base exponent) fun _ => pow_eq_ok_iff

/-- A product of positive counts is never smaller than what is formed on the way. -/
theorem counts_foldlM_mul {ι : Type} {items : List ι} {outcome : ι → Except Fault Nat}
    {count : ι → Nat} (counted : ∀ item ∈ items, Counts (outcome item) (count item))
    (positive : ∀ item ∈ items, 0 < count item) {start : Nat} (started : 0 < start)
    (small : start < wordBound) :
    Counts (items.foldlM (fun product item => do mul product (← outcome item)) start)
      (start * (items.map count).prod) := by
  induction items generalizing start with
  | nil =>
      rw [List.map_nil, List.prod_nil, Nat.mul_one, Counts, if_pos small]
      rfl
  | cons item items ih =>
      have own := counted item List.mem_cons_self
      have rest := fun other member => counted other (List.mem_cons_of_mem item member)
      have restPositive := fun other member => positive other (List.mem_cons_of_mem item member)
      have ownPositive := positive item List.mem_cons_self
      have others : 0 < (items.map count).prod := by
        simpa [List.prod_pos_iff_forall_pos_nat] using restPositive
      rw [List.foldlM_cons, List.map_cons, List.prod_cons, ← Nat.mul_assoc]
      have own_le : count item ≤ start * count item := Nat.le_mul_of_pos_left _ started
      have partial_le : start * count item ≤ start * count item * (items.map count).prod :=
        Nat.le_mul_of_pos_right _ others
      by_cases counts : count item < wordBound
      · rw [Counts, if_pos counts] at own
        have next := counts_mul start (count item)
        by_cases fits : start * count item < wordBound
        · rw [Counts, if_pos fits] at next
          rw [bind_of_eq_ok ((bind_of_eq_ok own _).trans next)]
          exact ih rest restPositive (Nat.mul_pos started ownPositive) fits
        · rw [Counts, if_neg fits] at next
          obtain ⟨excess, failed⟩ := next
          rw [Counts, if_neg (by omega)]
          exact ⟨excess, bind_of_eq_error ((bind_of_eq_ok own _).trans failed) _⟩
      · rw [Counts, if_neg counts] at own
        obtain ⟨excess, failed⟩ := own
        rw [Counts, if_neg (by omega)]
        exact ⟨excess, bind_of_eq_error (bind_of_eq_error failed _) _⟩

end Bounded

/-! ## Layouts -/

namespace StageLayout

theorem onlyExceeds_extendGeometric (base stages size start : Nat) (layout : StageLayout) :
    OnlyExceeds (extendGeometric base stages size start layout) := by
  fun_induction extendGeometric base stages size start layout with
  | case1 size start layout =>
      exact (Bounded.onlyExceeds_add start size).bind fun _ _ => trivial
  | case2 stages size start layout ih =>
      refine (Bounded.onlyExceeds_add start size).bind fun start _ => ?_
      exact (Bounded.onlyExceeds_mul size base).bind fun size _ => ih start size

theorem onlyExceeds_layOut (base horizon : Nat) : OnlyExceeds (layOut base horizon) := by
  cases horizon with
  | zero => trivial
  | succ stages => exact onlyExceeds_extendGeometric base stages 1 0 _

theorem sizeAt_closed {base horizon stage : Nat} (inside : stage < horizon) :
    (closed base horizon).sizeAt stage = .ok (base ^ stage) := by
  have found : (closed base horizon).sizes[stage]? = some (base ^ stage) := by
    simp [closed, inside]
  rw [sizeAt, found]

theorem sizeAt_closed_beyond (base : Nat) {horizon stage : Nat} (beyond : horizon ≤ stage) :
    ∃ cause, (closed base horizon).sizeAt stage = .error (.missing cause) := by
  have absent : (closed base horizon).sizes[stage]? = none := by
    simp [closed, beyond]
  rw [sizeAt, absent]
  exact ⟨_, rfl⟩

theorem preceding_closed {base horizon stage : Nat}
    (fits : Shortlex.first base horizon < wordBound) (inside : stage ≤ horizon) :
    (closed base horizon).preceding stage = .ok (Shortlex.first base stage) := by
  rw [preceding, stages_closed]
  split
  · rename_i last
    rw [total_closed fits, last]
  · exact startAt_closed (by omega)

/-- What the layout and the bounded operations say about the words over `base` symbols that are
shorter than `horizon`. -/
structure CountsWords (layout : StageLayout) (base horizon : Nat) : Prop where
  stages : layout.stages = horizon
  total : layout.total = ∑ stage ∈ Finset.range horizon, base ^ stage
  sizeAt : ∀ stage, stage < horizon → layout.sizeAt stage = .ok (base ^ stage)
  pow : ∀ stage, stage < horizon → Bounded.pow base stage = .ok (base ^ stage)
  startAt : ∀ stage, stage < horizon →
    layout.startAt stage = .ok (∑ earlier ∈ Finset.range stage, base ^ earlier)
  preceding : ∀ stage, stage ≤ horizon →
    layout.preceding stage = .ok (∑ earlier ∈ Finset.range stage, base ^ earlier)
  geometricSum : ∀ stage, stage ≤ horizon →
    Bounded.geometricSum base stage = .ok (∑ earlier ∈ Finset.range stage, base ^ earlier)
  contiguous : ∀ stage start size, stage + 1 < horizon → layout.startAt stage = .ok start →
    layout.sizeAt stage = .ok size → layout.startAt (stage + 1) = .ok (start + size)
  beyond : ∀ stage, horizon ≤ stage →
    (∃ cause, layout.sizeAt stage = .error (.missing cause)) ∧
      ∃ cause, layout.startAt stage = .error (.missing cause)

theorem countsWords_closed {base horizon : Nat} (fits : Shortlex.first base horizon < wordBound) :
    (closed base horizon).CountsWords base horizon := by
  -- Nothing that is counted on the way exceeds the total.
  have small : ∀ stage, stage ≤ horizon → Shortlex.first base stage < wordBound := fun stage early =>
    Nat.lt_of_le_of_lt (Shortlex.first_mono base early) fits
  constructor
  case stages => exact stages_closed base horizon
  case total => rw [total_closed fits, Shortlex.first_eq_sum]
  case sizeAt => exact fun stage inside => sizeAt_closed inside
  case pow =>
    intro stage inside
    have ended := small (stage + 1) inside
    rw [Shortlex.first_succ] at ended
    exact Bounded.pow_eq_ok_iff.mpr ⟨by omega, rfl⟩
  case startAt =>
    intro stage inside
    rw [startAt_closed inside, Shortlex.first_eq_sum]
  case preceding =>
    intro stage inside
    rw [preceding_closed fits inside, Shortlex.first_eq_sum]
  case geometricSum =>
    intro stage inside
    rw [← Shortlex.first_eq_sum]
    exact Bounded.geometricSum_eq_ok_iff.mpr ⟨small stage inside, rfl⟩
  case contiguous =>
    intro stage start size inside starts sizes
    rw [startAt_closed (Nat.lt_of_succ_lt inside)] at starts
    rw [sizeAt_closed (Nat.lt_of_succ_lt inside)] at sizes
    cases starts
    cases sizes
    rw [startAt_closed inside, Shortlex.first_succ]
  case beyond =>
    exact fun stage late => ⟨sizeAt_closed_beyond base late, startAt_closed_beyond base late⟩

/-- All counts are exact as long as the words can be numbered, and from then on they are refused. -/
def CountsExactly (base horizon : Nat) : Prop :=
  if ∑ stage ∈ Finset.range horizon, base ^ stage < wordBound then
    ∃ layout, geometric base horizon = .ok layout ∧ layout.CountsWords base horizon
  else
    (∃ excess, geometric base horizon = .error (.tooLarge excess)) ∧
      ∃ excess, Bounded.geometricSum base horizon = .error (.tooLarge excess)

theorem counts_geometricSum (base horizon : Nat) :
    Bounded.Counts (Bounded.geometricSum base horizon)
      (∑ stage ∈ Finset.range horizon, base ^ stage) := by
  rw [← Shortlex.first_eq_sum]
  exact Bounded.counts_of_onlyExceeds (Bounded.onlyExceeds_addPowers base horizon 1 0)
    fun _ => Bounded.geometricSum_eq_ok_iff

theorem geometricSum_of_le {base horizon : Nat}
    (exceeds : wordBound ≤ Shortlex.first base horizon) :
    ∃ excess, Bounded.geometricSum base horizon = .error (.tooLarge excess) := by
  have summed := counts_geometricSum base horizon
  rwa [Bounded.Counts, ← Shortlex.first_eq_sum, if_neg (Nat.not_lt_of_le exceeds)] at summed

theorem countsExactly_of_lt (base : Nat) {horizon : Nat} (stored : horizon < capacity) :
    CountsExactly base horizon := by
  have summed := counts_geometricSum base horizon
  unfold CountsExactly
  unfold Bounded.Counts at summed
  rw [← Shortlex.first_eq_sum] at summed ⊢
  split
  · rename_i fits
    exact ⟨_, geometric_eq_ok_iff.mpr ⟨stored, fits, rfl⟩, countsWords_closed fits⟩
  · rename_i exceeds
    rw [if_neg exceeds] at summed
    refine ⟨?_, summed⟩
    rw [geometric_of_lt base stored]
    refine (onlyExceeds_layOut base horizon).eq_error fun layout success => ?_
    exact exceeds (layOut_eq_ok_iff.mp success).1

/-- A machine that halts neither counts nor refuses. -/
theorem not_countsExactly_of_le (base : Nat) {horizon : Nat} (beyond : capacity ≤ horizon) :
    ¬ CountsExactly base horizon := by
  unfold CountsExactly
  rw [geometric_of_capacity_le base beyond]
  split
  · rintro ⟨_, success, _⟩
    cases success
  · rintro ⟨⟨_, refused⟩, _⟩
    cases refused

/-- The closed form counts exactly for every horizon that an array has room for, and only for these: for
any other the machine halts, whatever the base. The sum of the powers is exact for every horizon. -/
theorem countsExactly_iff (base horizon : Nat) :
    (CountsExactly base horizon ↔ horizon < capacity) ∧
      (geometric base horizon = .error (.halted .capacity) ↔ capacity ≤ horizon) ∧
        if ∑ stage ∈ Finset.range horizon, base ^ stage < wordBound then
          Bounded.geometricSum base horizon = .ok (∑ stage ∈ Finset.range horizon, base ^ stage)
        else ∃ excess, Bounded.geometricSum base horizon = .error (.tooLarge excess) := by
  have exactly : CountsExactly base horizon ↔ horizon < capacity := by
    constructor
    · exact fun counts => Nat.lt_of_not_le fun beyond => not_countsExactly_of_le base beyond counts
    · exact countsExactly_of_lt base
  refine ⟨exactly, ⟨fun halted => Nat.le_of_not_lt fun stored => ?_, geometric_of_capacity_le base⟩,
    counts_geometricSum base horizon⟩
  rw [geometric_of_lt base stored] at halted
  have refused := onlyExceeds_layOut base horizon
  rw [halted] at refused
  obtain ⟨_, same⟩ := refused
  cases same

/-- Words of two symbols cannot be numbered for so many stages, but instead of being refused they halt
the machine. -/
theorem not_countsExactly_at_capacity :
    ¬ CountsExactly 2 capacity ∧ geometric 2 capacity = .error (.halted .capacity) ∧
      ∃ excess, Bounded.geometricSum 2 capacity = .error (.tooLarge excess) := by
  refine ⟨not_countsExactly_of_le 2 (Nat.le_refl capacity),
    geometric_of_capacity_le 2 (Nat.le_refl capacity), ?_⟩
  have many : wordBound ≤ Shortlex.first 2 65 := by decide
  exact geometricSum_of_le (many.trans (Shortlex.first_mono 2 (by decide)))

/-- Sixty-four stages of words of two symbols can be numbered, and not one more. -/
example : (geometric 2 64).isOk = true ∧
    geometric 2 65 = .error (.tooLarge (.product (2 ^ 63) 2)) ∧
    Bounded.geometricSum 2 65 = .error (.tooLarge (.product (2 ^ 63) 2)) := by
  decide +kernel

end StageLayout

end TeamPlanning
