import TeamPlanning.Proofs.Shortlex
import TeamPlanning.Stage.Layout

/-! # Stages in closed form

The layout in closed form exists exactly if all words shorter than the horizon can be numbered, and
then it lists the powers of the base and the first number of every length. Stages are found by a
binary search, which is correct for every test that keeps failing once it fails. -/

set_option autoImplicit false

namespace TeamPlanning

/-! ## Finding a boundary -/

private theorem boundaryFrom_spec {test : Nat → Bool} (start : Nat) {size : Nat}
    (falling : ∀ position later, position ≤ later → later < start + size →
      test later = true → test position = true)
    (before : ∀ position, position < start → test position = true) (sized : 0 < size) :
    boundaryFrom test start size ≤ start + size ∧
      (∀ position, position < boundaryFrom test start size → test position = true) ∧
      (∀ position, boundaryFrom test start size ≤ position → position < start + size →
        test position = false) := by
  induction size using Nat.strong_induction_on generalizing start with
  | _ size ih =>
      unfold boundaryFrom
      split
      · rename_i small
        obtain rfl : size = 1 := by omega
        cases here : test start with
        | true =>
            refine ⟨by simp, fun position early => ?_, fun position late inside => ?_⟩
            · rcases Nat.lt_or_ge position start with earlier | _
              · exact before position earlier
              · obtain rfl : position = start := by simp at early; omega
                exact here
            · simp at late
              omega
        | false =>
            refine ⟨by simp, fun position early => ?_, fun position late inside => ?_⟩
            · exact before position (by simpa using early)
            · obtain rfl : position = start := by simp at late; omega
              exact here
      · rename_i large
        cases middle : test (start + size / 2) with
        | true =>
            have reached : start + size / 2 + (size - size / 2) = start + size := by omega
            have upper := ih (size - size / 2) (by omega) (start + size / 2)
              (by rw [reached]; exact falling)
              (fun position early => falling position _ (Nat.le_of_lt early) (by omega) middle)
              (by omega)
            rw [reached] at upper
            simpa [middle] using upper
        | false =>
            obtain ⟨bound, passing, failing⟩ := ih (size - size / 2) (by omega) start
              (fun position later ordered inside => falling position later ordered (by omega))
              before (by omega)
            simp only [middle, Bool.false_eq_true, ↓reduceIte]
            refine ⟨by omega, passing, fun position late inside => ?_⟩
            rcases Nat.lt_or_ge position (start + (size - size / 2)) with lower | upper
            · exact failing position late lower
            · -- The positions given up lie behind the middle one, which fails.
              cases there : test position with
              | false => rfl
              | true =>
                  have contrary := falling (start + size / 2) position (by omega) inside there
                  rw [middle] at contrary
                  cases contrary

theorem boundary_spec (test : Nat → Bool) {size : Nat}
    (falling : ∀ position later, position ≤ later → later < size →
      test later = true → test position = true) :
    boundary test size ≤ size ∧
      (∀ position, position < boundary test size → test position = true) ∧
      (∀ position, boundary test size ≤ position → position < size → test position = false) := by
  unfold boundary
  split
  · rename_i empty
    refine ⟨Nat.zero_le _, fun position early => ?_, fun position _ inside => ?_⟩ <;> omega
  · rename_i filled
    simpa using boundaryFrom_spec 0 (by simpa using falling)
      (fun position early => absurd early (Nat.not_lt_zero position)) (Nat.pos_of_ne_zero filled)

/-! ## Layouts given by their starts -/

namespace StageLayout

/-- Stage `t` starts at `start t` and ends where the next one starts. -/
def startingAt (start : Nat → Nat) (stages : Nat) : StageLayout where
  sizes := ((List.range stages).map fun stage => start (stage + 1) - start stage).toArray
  starts := ((List.range stages).map start).toArray

variable {start : Nat → Nat} {stages stage index : Nat}

theorem startAt_startingAt (inside : stage < stages) :
    (startingAt start stages).startAt stage = .ok (start stage) := by
  have found : (startingAt start stages).starts[stage]? = some (start stage) := by
    simp [startingAt, inside]
  rw [startAt, found]

theorem sizeAt_startingAt (inside : stage < stages) :
    (startingAt start stages).sizeAt stage = .ok (start (stage + 1) - start stage) := by
  have found : (startingAt start stages).sizes[stage]? =
      some (start (stage + 1) - start stage) := by
    simp [startingAt, inside]
  rw [sizeAt, found]

theorem startAt_startingAt_beyond (beyond : stages ≤ stage) :
    ∃ cause, (startingAt start stages).startAt stage = .error (.missing cause) := by
  have absent : (startingAt start stages).starts[stage]? = none := by
    simp [startingAt, beyond]
  rw [startAt, absent]
  exact ⟨_, rfl⟩

theorem total_startingAt (rising : Monotone start) (zero : start 0 = 0)
    (fits : start stages < wordBound) : (startingAt start stages).total = start stages := by
  cases stages with
  | zero => simp [startingAt, total, zero]
  | succ stages =>
      have ordered : start stages + (start (stages + 1) - start stages) = start (stages + 1) :=
        Nat.add_sub_cancel' (rising (Nat.le_succ stages))
      have fitting : start stages + (start (stages + 1) - start stages) < wordBound := by
        rwa [ordered]
      simpa [startingAt, total, List.range_succ, ordered] using Word.add_of_lt fitting

/-- A number below the end of the last stage is covered by a stage. -/
theorem exists_covering (zero : start 0 = 0) (inside : index < start stages) :
    ∃ stage, stage < stages ∧ start stage ≤ index ∧ index < start (stage + 1) := by
  induction stages with
  | zero => omega
  | succ stages ih =>
      rcases Nat.lt_or_ge index (start stages) with earlier | reached
      · obtain ⟨stage, below, covered⟩ := ih earlier
        exact ⟨stage, by omega, covered⟩
      · exact ⟨stages, Nat.lt_succ_self stages, reached, inside⟩

theorem covering_le (rising : Monotone start) {earlier later other : Nat} (ordered : earlier ≤ later)
    (reached : start stage ≤ earlier) (ended : later < start (other + 1)) : stage ≤ other := by
  by_contra beyond
  have after : start (other + 1) ≤ start stage := rising (Nat.lt_of_not_le beyond)
  omega

/-- The search passes the stages up to the one that covers the number. -/
theorem boundary_startingAt (rising : Monotone start) (inside : stage < stages)
    (reached : start stage ≤ index) (ended : index < start (stage + 1)) :
    boundary (fun t => ((startingAt start stages).starts[t]?).any (· ≤ index))
      (startingAt start stages).starts.size = stage + 1 := by
  have size : (startingAt start stages).starts.size = stages := by simp [startingAt]
  have test : ∀ position, ((startingAt start stages).starts[position]?).any (· ≤ index) = true ↔
      position < stages ∧ start position ≤ index := by
    intro position
    by_cases here : position < stages <;> simp [startingAt, here]
  have falling : ∀ position later, position ≤ later → later < stages →
      ((startingAt start stages).starts[later]?).any (· ≤ index) = true →
        ((startingAt start stages).starts[position]?).any (· ≤ index) = true := by
    intro position later ordered below passed
    have started := ((test later).mp passed).2
    exact (test position).mpr ⟨by omega, Nat.le_trans (rising ordered) started⟩
  obtain ⟨bound, passing, failing⟩ := boundary_spec
    (fun position => ((startingAt start stages).starts[position]?).any (· ≤ index)) falling
  rw [size]
  generalize boundary _ stages = found at bound passing failing ⊢
  -- The test holds up to the stage and fails right after it.
  have atLeast : stage < found := by
    by_contra early
    have refused := failing stage (Nat.le_of_not_lt early) inside
    rw [(test stage).mpr ⟨inside, reached⟩] at refused
    cases refused
  have atMost : found ≤ stage + 1 := by
    by_contra late
    have accepted := ((test _).mp (passing (stage + 1) (Nat.lt_of_not_le late))).2
    omega
  omega

theorem stageOf_startingAt (rising : Monotone start) (zero : start 0 = 0)
    (fits : start stages < wordBound) (narrow : stage < wordBound) (inside : stage < stages)
    (reached : start stage ≤ index) (ended : index < start (stage + 1)) :
    (startingAt start stages).stageOf index = .ok stage := by
  have counted : index < start stages := Nat.lt_of_lt_of_le ended (rising inside)
  have before : Word.sub (stage + 1) 1 = stage := by
    have one : 1 % wordBound = 1 := rfl
    have shifted : stage + 1 + (wordBound - 1) = stage + wordBound := by
      have wide : 0 < wordBound := by omega
      omega
    rw [Word.sub, one, shifted, Nat.add_mod_right]
    exact Nat.mod_eq_of_lt narrow
  rw [stageOf, total_startingAt rising zero fits, if_pos counted,
    boundary_startingAt rising inside reached ended, before]

theorem stageOf_startingAt_beyond (rising : Monotone start) (zero : start 0 = 0)
    (fits : start stages < wordBound) (beyond : start stages ≤ index) :
    ∃ cause, (startingAt start stages).stageOf index = .error (.missing cause) := by
  rw [stageOf, total_startingAt rising zero fits, if_neg (Nat.not_lt_of_le beyond)]
  exact ⟨_, rfl⟩

/-- Ending a tally that has the starts gives the layout. -/
theorem finish_startingAt {layout : StageLayout} (rising : Monotone start)
    (fits : start stages < wordBound)
    (starts : layout.starts = ((List.range stages).map start).toArray) :
    layout.finish (start stages) = startingAt start stages := by
  have ends : List.zipWith Word.sub
      (((List.range stages).map start).drop 1 ++ [start stages]) ((List.range stages).map start) =
        (List.range stages).map fun stage => start (stage + 1) - start stage := by
    cases stages with
    | zero => rfl
    | succ further =>
        have shifted : ((List.range (further + 1)).map start).drop 1 ++ [start (further + 1)] =
            (List.range (further + 1)).map fun stage => start (stage + 1) := by
          rw [List.range_succ_eq_map, List.map_cons, List.drop_one, List.tail_cons, List.map_map,
            ← List.range_succ_eq_map, List.range_succ, List.map_append]
          rfl
        rw [shifted, List.zipWith_map, List.zipWith_self]
        refine List.map_congr_left fun stage member => ?_
        have reached : start (stage + 1) ≤ start (further + 1) :=
          rising (List.mem_range.mp member)
        exact Word.sub_of_le (by omega) (rising (Nat.le_succ stage))
  rw [StageLayout.finish, startingAt, starts]
  simp only [ends]

end StageLayout

/-! ## The closed form -/

namespace StageLayout

/-- Stage `t` has `base ^ t` histories, and starts at the number of the first word of that
length. -/
def closed (base horizon : Nat) : StageLayout where
  sizes := ((List.range horizon).map (base ^ ·)).toArray
  starts := ((List.range horizon).map (Shortlex.first base)).toArray

@[simp] theorem stages_closed (base horizon : Nat) : (closed base horizon).stages = horizon := by
  simp [stages, closed]

theorem closed_succ (base horizon : Nat) :
    closed base (horizon + 1) =
      ⟨(closed base horizon).sizes.push (base ^ horizon),
        (closed base horizon).starts.push (Shortlex.first base horizon)⟩ := by
  simp [closed, List.range_succ]

theorem closed_eq_startingAt (base horizon : Nat) :
    closed base horizon = startingAt (Shortlex.first base) horizon := by
  simp [closed, startingAt, Shortlex.first_succ]

theorem rising_first (base : Nat) : Monotone (Shortlex.first base) :=
  fun _ _ ordered => Shortlex.first_mono base ordered

theorem startAt_closed {base horizon stage : Nat} (inside : stage < horizon) :
    (closed base horizon).startAt stage = .ok (Shortlex.first base stage) := by
  rw [closed_eq_startingAt, startAt_startingAt inside]

theorem startAt_closed_beyond (base : Nat) {horizon stage : Nat} (beyond : horizon ≤ stage) :
    ∃ cause, (closed base horizon).startAt stage = .error (.missing cause) := by
  rw [closed_eq_startingAt]
  exact startAt_startingAt_beyond beyond

theorem total_closed {base horizon : Nat} (fits : Shortlex.first base horizon < wordBound) :
    (closed base horizon).total = Shortlex.first base horizon := by
  rw [closed_eq_startingAt, total_startingAt (rising_first base) rfl fits]

private theorem extendGeometric_eq_ok_iff (base further stage : Nat) {layout : StageLayout} :
    extendGeometric base further (base ^ stage) (Shortlex.first base stage)
        (closed base (stage + 1)) = .ok layout ↔
      Shortlex.first base (stage + 1 + further) < wordBound ∧
        layout = closed base (stage + 1 + further) := by
  induction further generalizing stage with
  | zero =>
      simp only [extendGeometric, bind_eq_ok_iff, Bounded.add_eq_ok_iff, ← Shortlex.first_succ,
        pure, Except.pure, Except.ok.injEq, Nat.add_zero]
      constructor
      · intro given
        obtain ⟨_, ⟨fits, _⟩, rfl⟩ := given
        exact ⟨fits, rfl⟩
      · intro given
        obtain ⟨fits, rfl⟩ := given
        exact ⟨_, ⟨fits, rfl⟩, rfl⟩
  | succ further ih =>
      have next := ih (stage + 1)
      rw [closed_succ] at next
      have later : stage + 1 + (further + 1) = stage + 1 + 1 + further := by omega
      simp only [extendGeometric, bind_eq_ok_iff, Bounded.add_eq_ok_iff, Bounded.mul_eq_ok_iff,
        ← Shortlex.first_succ, ← pow_succ, later]
      constructor
      · intro given
        obtain ⟨_, ⟨_, rfl⟩, _, ⟨_, rfl⟩, rest⟩ := given
        exact next.mp rest
      · intro given
        obtain ⟨fits, rfl⟩ := given
        -- The stages to come start no earlier than the next one ends.
        have reached := Shortlex.first_mono base
          (show stage + 1 + 1 ≤ stage + 1 + 1 + further by omega)
        have ended := Shortlex.first_succ base (stage + 1)
        exact ⟨_, ⟨by omega, rfl⟩, _, ⟨by omega, rfl⟩, next.mpr ⟨fits, rfl⟩⟩

theorem layOut_eq_ok_iff {base horizon : Nat} {layout : StageLayout} :
    layOut base horizon = .ok layout ↔
      Shortlex.first base horizon < wordBound ∧ layout = closed base horizon := by
  cases horizon with
  | zero =>
      have start : Shortlex.first base 0 < wordBound := by
        simp [Shortlex.first, wordBound]
      simp [layOut, empty, closed, start, eq_comm]
  | succ further =>
      have extended := @extendGeometric_eq_ok_iff base further 0 layout
      have opened : closed base (0 + 1) = ⟨#[1], #[0]⟩ := by simp [closed, Shortlex.first]
      rw [opened, Nat.pow_zero, Nat.zero_add, Nat.add_comm 1 further] at extended
      exact extended

theorem geometric_of_lt (base : Nat) {horizon : Nat} (stored : horizon < capacity) :
    geometric base horizon = layOut base horizon := bind_of_eq_ok (Machine.reserve_of_lt stored) _

theorem geometric_of_capacity_le (base : Nat) {horizon : Nat} (beyond : capacity ≤ horizon) :
    geometric base horizon = .error (.halted .capacity) :=
  bind_of_eq_error (Machine.reserve_of_le beyond) _

/-- The closed form fails exactly if the histories cannot all be numbered, or if no array has room for
the stages. -/
theorem geometric_eq_ok_iff {base horizon : Nat} {layout : StageLayout} :
    geometric base horizon = .ok layout ↔ horizon < capacity ∧
      Shortlex.first base horizon < wordBound ∧ layout = closed base horizon := by
  by_cases stored : horizon < capacity
  · rw [geometric_of_lt base stored, layOut_eq_ok_iff, and_iff_right stored]
  · rw [geometric_of_capacity_le base (Nat.le_of_not_lt stored)]
    constructor
    · intro success
      cases success
    · exact fun given => absurd given.1 stored

/-- A stage that has histories comes no later than its first one. -/
theorem stage_le_first {base stage index : Nat} (reached : Shortlex.first base stage ≤ index)
    (ended : index < Shortlex.first base (stage + 1)) : stage ≤ index := by
  rw [Shortlex.first_succ] at ended
  rcases Nat.eq_zero_or_pos stage with rfl | later
  · exact Nat.zero_le index
  · have populated : 0 < base ^ stage := by omega
    have positive : 0 < base := Nat.pos_of_ne_zero fun empty => by
      simp [empty, Nat.zero_pow later] at populated
    exact Nat.le_trans (Shortlex.le_first positive stage) reached

theorem stageOf_closed_of_covering {base horizon stage index : Nat}
    (fits : Shortlex.first base horizon < wordBound) (inside : stage < horizon)
    (reached : Shortlex.first base stage ≤ index)
    (ended : index < Shortlex.first base (stage + 1)) :
    (closed base horizon).stageOf index = .ok stage := by
  have early := stage_le_first reached ended
  have counted : Shortlex.first base (stage + 1) ≤ Shortlex.first base horizon :=
    Shortlex.first_mono base inside
  rw [closed_eq_startingAt]
  exact stageOf_startingAt (rising_first base) rfl fits (by omega) inside reached ended

theorem stageOf_closed_beyond {base horizon index : Nat}
    (fits : Shortlex.first base horizon < wordBound)
    (beyond : Shortlex.first base horizon ≤ index) :
    ∃ cause, (closed base horizon).stageOf index = .error (.missing cause) := by
  rw [closed_eq_startingAt]
  exact stageOf_startingAt_beyond (rising_first base) rfl fits beyond

theorem stageOf_closed_eq_ok_iff {base horizon stage index : Nat}
    (fits : Shortlex.first base horizon < wordBound) :
    (closed base horizon).stageOf index = .ok stage ↔
      stage < horizon ∧ Shortlex.first base stage ≤ index ∧
        index < Shortlex.first base (stage + 1) := by
  constructor
  · intro found
    rcases Nat.lt_or_ge index (Shortlex.first base horizon) with inside | beyond
    · obtain ⟨covering, below, reached, ended⟩ := exists_covering rfl inside
      rw [stageOf_closed_of_covering fits below reached ended] at found
      cases found
      exact ⟨below, reached, ended⟩
    · obtain ⟨cause, failed⟩ := stageOf_closed_beyond fits beyond
      rw [failed] at found
      cases found
  · intro covered
    obtain ⟨below, reached, ended⟩ := covered
    exact stageOf_closed_of_covering fits below reached ended

theorem stageOf_closed {base horizon index : Nat} (positive : 0 < base)
    (fits : Shortlex.first base horizon < wordBound)
    (inside : index < Shortlex.first base horizon) :
    (closed base horizon).stageOf index = .ok (Shortlex.spell base index).length := by
  have within := (Shortlex.length_spell_lt_iff positive index horizon).mpr inside
  have reached : Shortlex.first base (Shortlex.spell base index).length ≤ index := by
    have started := Shortlex.first_le_number base (Shortlex.spell base index)
    rwa [Shortlex.number_spell] at started
  have next : index < Shortlex.first base ((Shortlex.spell base index).length + 1) :=
    (Shortlex.length_spell_lt_iff positive index _).mp (Nat.lt_succ_self _)
  exact stageOf_closed_of_covering fits within reached next

end StageLayout

/-! ## The tally -/

namespace StageLayout

/-- How many stages the first `counted` histories open. -/
def opened (base : Nat) : (counted : Nat) → Nat
  | 0 => 0
  | last + 1 => (Shortlex.spell base last).length + 1

/-- The layout has the starts of the stages that the first `counted` histories open. -/
def Tallies (layout : StageLayout) (base counted : Nat) : Prop :=
  layout.starts = ((List.range (opened base counted)).map (Shortlex.first base)).toArray

variable {base counted horizon : Nat} {layout : StageLayout}

theorem opened_le_iff (positive : 0 < base) (counted stage : Nat) :
    opened base counted ≤ stage ↔ counted ≤ Shortlex.first base stage := by
  cases counted with
  | zero => simp [opened]
  | succ last => exact Shortlex.length_spell_lt_iff positive last stage

/-- One history more opens at most one stage, which it then starts. -/
theorem opened_succ (positive : 0 < base) (counted : Nat) :
    opened base (counted + 1) = opened base counted ∨
      opened base (counted + 1) = opened base counted + 1 ∧
        Shortlex.first base (opened base counted) = counted := by
  have reached := (opened_le_iff positive counted _).mp (Nat.le_refl _)
  have started := (opened_le_iff positive (counted + 1) _).mp (Nat.le_refl _)
  have later := Shortlex.first_strictMono positive (Nat.lt_add_one (opened base counted))
  have atMost := (opened_le_iff positive (counted + 1) (opened base counted + 1)).mpr (by omega)
  have atLeast := (opened_le_iff positive counted (opened base (counted + 1))).mpr (by omega)
  by_cases same : opened base (counted + 1) = opened base counted
  · exact .inl same
  · have passed := (opened_le_iff positive (counted + 1) (opened base counted)).not.mp (by omega)
    exact .inr ⟨by omega, by omega⟩

theorem opened_first (positive : 0 < base) (horizon : Nat) :
    opened base (Shortlex.first base horizon) = horizon := by
  have atMost := (opened_le_iff positive (Shortlex.first base horizon) horizon).mpr (Nat.le_refl _)
  by_contra different
  have earlier := Shortlex.first_strictMono positive (Nat.lt_of_le_of_ne atMost different)
  have reached := (opened_le_iff positive (Shortlex.first base horizon) _).mp (Nat.le_refl _)
  omega

theorem tallies_empty (base : Nat) : empty.Tallies base 0 := rfl

theorem Tallies.note (tallies : layout.Tallies base counted) (positive : 0 < base) :
    (layout.note (Shortlex.spell base counted).length counted).Tallies base (counted + 1) := by
  have starts : layout.starts = _ := tallies
  have size : layout.starts.size = opened base counted := by
    simp [starts]
  have opening : (Shortlex.spell base counted).length + 1 = opened base (counted + 1) := rfl
  rw [Tallies, StageLayout.note, size, opening, starts]
  rcases opened_succ positive counted with same | ⟨more, start⟩
  · simp [same]
  · simp [more, List.range_succ, start]

theorem Tallies.finish (tallies : layout.Tallies base (Shortlex.first base horizon))
    (positive : 0 < base) (fits : Shortlex.first base horizon < wordBound) :
    layout.finish (Shortlex.first base horizon) = closed base horizon := by
  have starts : layout.starts = ((List.range horizon).map (Shortlex.first base)).toArray := by
    rw [show layout.starts = _ from tallies, opened_first positive]
  rw [finish_startingAt (rising_first base) fits starts, closed_eq_startingAt]

end StageLayout

namespace Bounded

private theorem addPowers_eq_ok_iff {base stage : Nat} (terms sum : Nat)
    (small : Shortlex.first base stage < wordBound) :
    addPowers base terms (base ^ stage) (Shortlex.first base stage) = .ok sum ↔
      Shortlex.first base (stage + terms) < wordBound ∧
        sum = Shortlex.first base (stage + terms) := by
  induction terms generalizing stage with
  | zero => simp [addPowers, small, eq_comm]
  | succ terms ih =>
      cases terms with
      | zero =>
          rw [addPowers, add_eq_ok_iff, ← Shortlex.first_succ]
      | succ terms =>
          have later : stage + (terms + 1 + 1) = stage + 1 + (terms + 1) := by omega
          simp only [addPowers, bind_eq_ok_iff, add_eq_ok_iff, mul_eq_ok_iff,
            ← Shortlex.first_succ, ← pow_succ, later]
          constructor
          · intro given
            obtain ⟨_, ⟨fits, rfl⟩, _, ⟨_, rfl⟩, rest⟩ := given
            exact (ih fits).mp rest
          · intro given
            obtain ⟨fits, rfl⟩ := given
            have reached := Shortlex.first_mono base
              (show stage + 1 + 1 ≤ stage + 1 + (terms + 1) by omega)
            have ended := Shortlex.first_succ base (stage + 1)
            have started : Shortlex.first base (stage + 1) < wordBound := by omega
            exact ⟨_, ⟨started, rfl⟩, _, ⟨by omega, rfl⟩, (ih started).mpr ⟨fits, rfl⟩⟩

theorem geometricSum_eq_ok_iff {base terms sum : Nat} :
    geometricSum base terms = .ok sum ↔
      Shortlex.first base terms < wordBound ∧ sum = Shortlex.first base terms := by
  have start : Shortlex.first base 0 < wordBound := by simp [Shortlex.first, wordBound]
  have summed := addPowers_eq_ok_iff terms sum start
  rwa [Nat.pow_zero, Nat.zero_add] at summed

end Bounded

end TeamPlanning
