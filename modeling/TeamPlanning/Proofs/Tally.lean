import TeamPlanning.Proofs.Stages

/-! # Tallies of any stages

Histories that are noted in the order of their stages give a layout in which the stage of each
number is the one it was noted with, whatever stages repeat or stay empty. In every such layout,
and in the closed form, the stage of a number is the only one that covers it. -/

set_option autoImplicit false

namespace TeamPlanning.StageLayout

/-- Notes histories of the given stages under the numbers from 0 on, and ends the tally after
them. -/
def tally (noted : List Nat) : StageLayout :=
  (noted.zipIdx.foldl (fun layout (stage, index) => layout.note stage index) empty).finish
    noted.length

/-- How many of the histories come before a stage. -/
def before (noted : List Nat) (stage : Nat) : Nat :=
  noted.countP (· < stage)

/-- How many stages are open once the histories are noted: all up to the last one of theirs. -/
def reach (noted : List Nat) : Nat :=
  (noted.getLast?.map (· + 1)).getD 0

theorem rising_before (noted : List Nat) : Monotone (before noted) := by
  intro stage later ordered
  refine List.countP_mono_left fun noted _ earlier => ?_
  simp only [decide_eq_true_eq] at earlier ⊢
  omega

theorem before_zero (noted : List Nat) : before noted 0 = 0 := by
  simp [before]

theorem before_succ (noted : List Nat) (stage : Nat) :
    before noted (stage + 1) = before noted stage + noted.count stage := by
  induction noted with
  | nil => rfl
  | cons first noted ih =>
      simp only [before, List.countP_cons, List.count_cons, decide_eq_true_eq, beq_iff_eq] at ih ⊢
      rw [ih]
      split_ifs <;> omega

/-- All histories come before a stage that is later than each of theirs. -/
theorem before_eq_length {noted : List Nat} {stage : Nat}
    (passed : ∀ other ∈ noted, other < stage) : before noted stage = noted.length :=
  List.countP_eq_length.mpr fun other member => by simpa using passed other member

@[simp] theorem reach_append_stage (noted : List Nat) (stage : Nat) :
    reach (noted ++ [stage]) = stage + 1 := by
  simp [reach]

theorem lt_reach {noted : List Nat} (sorted : noted.Pairwise (· ≤ ·)) :
    ∀ other ∈ noted, other < reach noted := by
  rcases List.eq_nil_or_concat' noted with rfl | ⟨earlier, last, rfl⟩
  · simp
  · obtain ⟨_, _, ordered⟩ := List.pairwise_append.mp sorted
    intro other member
    rw [reach_append_stage]
    rcases List.mem_append.mp member with member | member
    · exact Nat.lt_succ_of_le (ordered other member last (List.mem_singleton_self last))
    · exact Nat.lt_succ_of_le (Nat.le_of_eq (List.mem_singleton.mp member))

theorem reach_le {noted : List Nat} {stage : Nat} (last : ∀ other ∈ noted, other ≤ stage) :
    reach noted ≤ stage + 1 := by
  rcases List.eq_nil_or_concat' noted with rfl | ⟨earlier, previous, rfl⟩
  · exact Nat.zero_le _
  · rw [reach_append_stage]
    exact Nat.succ_le_succ (last previous (by simp))

/-- The stages start after the histories of the stages before them. -/
def StartsBefore (layout : StageLayout) (noted : List Nat) : Prop :=
  layout.starts = ((List.range (reach noted)).map (before noted)).toArray

theorem StartsBefore.note {layout : StageLayout} {noted : List Nat} {stage : Nat}
    (starts : layout.StartsBefore noted) (sorted : (noted ++ [stage]).Pairwise (· ≤ ·)) :
    (layout.note stage noted.length).StartsBefore (noted ++ [stage]) := by
  obtain ⟨sortedNoted, _, ordered⟩ := List.pairwise_append.mp sorted
  have last : ∀ other ∈ noted, other ≤ stage := fun other member =>
    ordered other member stage (List.mem_singleton_self stage)
  have starts : layout.starts = _ := starts
  have size : layout.starts.size = reach noted := by simp [starts]
  have reached : reach noted ≤ stage + 1 := reach_le last
  -- The history comes before none of the stages open now, and after all histories noted so far.
  have kept : ∀ earlier, earlier < stage + 1 →
      before (noted ++ [stage]) earlier = before noted earlier := by
    intro earlier small
    simp [before, show ¬ stage < earlier by omega]
  have opening : ∀ later, reach noted ≤ later → before noted later = noted.length := by
    intro later beyond
    exact before_eq_length fun other member =>
      Nat.lt_of_lt_of_le (lt_reach sortedNoted other member) beyond
  have stages : List.range (stage + 1) = List.range (reach noted) ++
      (List.range (stage + 1 - reach noted)).map (reach noted + ·) := by
    rw [← List.range_add, Nat.add_sub_cancel' reached]
  have added : (List.range (stage + 1 - reach noted)).map
      (fun further => before noted (reach noted + further)) =
        List.replicate (stage + 1 - reach noted) noted.length := by
    rw [List.eq_replicate_iff]
    simp [opening]
  have final : (List.range (stage + 1)).map (before (noted ++ [stage])) =
      (List.range (reach noted)).map (before noted) ++
        List.replicate (stage + 1 - reach noted) noted.length := by
    rw [List.map_congr_left fun earlier member => kept earlier (List.mem_range.mp member), stages,
      List.map_append, List.map_map, ← added]
    rfl
  rw [StartsBefore, StageLayout.note, size, starts, reach_append_stage, final]
  simp

theorem startsBefore_noted {noted : List Nat} (sorted : noted.Pairwise (· ≤ ·)) :
    (noted.zipIdx.foldl (fun layout (stage, index) => layout.note stage index)
      empty).StartsBefore noted := by
  induction noted using List.reverseRecOn with
  | nil => rfl
  | append_singleton noted stage ih =>
      have earlier := ih (List.pairwise_append.mp sorted).1
      simpa [List.zipIdx_append] using earlier.note sorted

theorem tally_eq_startingAt {noted : List Nat} (sorted : noted.Pairwise (· ≤ ·))
    (fits : noted.length < wordBound) :
    tally noted = startingAt (before noted) (reach noted) := by
  have all : before noted (reach noted) = noted.length := before_eq_length (lt_reach sorted)
  have finished := finish_startingAt (rising_before noted) (by rwa [all])
    (startsBefore_noted sorted)
  rwa [all] at finished

/-! ## Looking stages up -/

/-- The number is one of the stage's histories. -/
def Covers (layout : StageLayout) (stage index : Nat) : Prop :=
  ∃ start size, layout.startAt stage = .ok start ∧ layout.sizeAt stage = .ok size ∧
    start ≤ index ∧ index < start + size

theorem covers_startingAt_iff {start : Nat → Nat} {stages stage index : Nat}
    (rising : Monotone start) :
    (startingAt start stages).Covers stage index ↔
      stage < stages ∧ start stage ≤ index ∧ index < start (stage + 1) := by
  have ordered := rising (Nat.le_succ stage)
  constructor
  · intro covers
    obtain ⟨begin, size, started, sized, reached, ended⟩ := covers
    rcases Nat.lt_or_ge stage stages with inside | beyond
    · rw [startAt_startingAt inside] at started
      rw [sizeAt_startingAt inside] at sized
      cases started
      cases sized
      exact ⟨inside, reached, by omega⟩
    · obtain ⟨cause, failed⟩ := @startAt_startingAt_beyond start stages stage beyond
      rw [failed] at started
      cases started
  · intro covered
    obtain ⟨inside, reached, ended⟩ := covered
    exact ⟨_, _, startAt_startingAt inside, sizeAt_startingAt inside, reached, by omega⟩

theorem lt_reach_of_le {noted : List Nat} {last stage : Nat} (final : noted.getLast? = some last)
    (ordered : stage ≤ last) : stage < reach noted := by
  simp only [reach, final, Option.map_some, Option.getD_some]
  exact Nat.lt_succ_of_le ordered

section Tally

variable {noted : List Nat} {stage index : Nat}

/-- The number of a history lies between the starts of its stage and the next one. -/
theorem before_le_of_getElem? (sorted : noted.Pairwise (· ≤ ·))
    (found : noted[index]? = some stage) :
    before noted stage ≤ index ∧ index < before noted (stage + 1) := by
  obtain ⟨inside, rfl⟩ := List.getElem?_eq_some_iff.mp found
  have ordered := List.pairwise_iff_getElem.mp sorted
  have parts : ∀ stage split, before noted stage =
      before (noted.take split) stage + before (noted.drop split) stage := by
    intro stage split
    rw [before, before, before, ← List.countP_append, List.take_append_drop]
  constructor
  · have late : before (noted.drop index) noted[index] = 0 := by
      refine List.countP_eq_zero.mpr fun other member => ?_
      obtain ⟨further, below, rfl⟩ := List.getElem_of_mem member
      rw [List.getElem_drop, decide_eq_true_eq, Nat.not_lt]
      rcases Nat.eq_zero_or_pos further with rfl | positive
      · exact Nat.le_refl _
      · exact ordered _ _ inside (by simp at below; omega) (by omega)
    calc before noted noted[index]
        = before (noted.take index) noted[index] := by rw [parts _ index, late, Nat.add_zero]
      _ ≤ (noted.take index).length := List.countP_le_length
      _ ≤ index := by simp
  · have early : before (noted.take (index + 1)) (noted[index] + 1) = index + 1 := by
      rw [before_eq_length, List.length_take, Nat.min_eq_left inside]
      intro other member
      obtain ⟨position, below, rfl⟩ := List.getElem_of_mem member
      rw [List.getElem_take, Nat.lt_succ_iff]
      simp only [List.length_take] at below
      rcases Nat.lt_or_ge position index with earlier | same
      · exact ordered _ _ _ inside earlier
      · obtain rfl : position = index := by omega
        exact Nat.le_refl _
    rw [parts _ (index + 1), early]
    omega

theorem total_tally (sorted : noted.Pairwise (· ≤ ·)) (fits : noted.length < wordBound) :
    (tally noted).total = noted.length := by
  have all : before noted (reach noted) = noted.length := before_eq_length (lt_reach sorted)
  rw [tally_eq_startingAt sorted fits,
    total_startingAt (rising_before noted) (before_zero noted) (by rwa [all]), all]

theorem startAt_tally (sorted : noted.Pairwise (· ≤ ·)) (fits : noted.length < wordBound)
    (inside : stage < reach noted) :
    (tally noted).startAt stage = .ok (noted.countP (· < stage)) := by
  rw [tally_eq_startingAt sorted fits, startAt_startingAt inside, before]

theorem sizeAt_tally (sorted : noted.Pairwise (· ≤ ·)) (fits : noted.length < wordBound)
    (inside : stage < reach noted) : (tally noted).sizeAt stage = .ok (noted.count stage) := by
  rw [tally_eq_startingAt sorted fits, sizeAt_startingAt inside, before_succ,
    Nat.add_sub_cancel_left]

theorem stageOf_tally (sorted : noted.Pairwise (· ≤ ·)) (fits : noted.length < wordBound)
    (narrow : ∀ stage ∈ noted, stage < wordBound) (found : noted[index]? = some stage) :
    (tally noted).stageOf index = .ok stage := by
  have all : before noted (reach noted) = noted.length := before_eq_length (lt_reach sorted)
  have member : stage ∈ noted := List.mem_of_getElem? found
  obtain ⟨reached, ended⟩ := before_le_of_getElem? sorted found
  rw [tally_eq_startingAt sorted fits]
  exact stageOf_startingAt (rising_before noted) (before_zero noted) (by rwa [all])
    (narrow stage member) (lt_reach sorted stage member) reached ended

theorem stageOf_tally_beyond (sorted : noted.Pairwise (· ≤ ·)) (fits : noted.length < wordBound)
    (beyond : noted.length ≤ index) :
    ∃ cause, (tally noted).stageOf index = .error (.missing cause) := by
  have all : before noted (reach noted) = noted.length := before_eq_length (lt_reach sorted)
  rw [tally_eq_startingAt sorted fits]
  exact stageOf_startingAt_beyond (rising_before noted) (before_zero noted) (by rwa [all])
    (by rwa [all])

end Tally

section Closed

variable {base horizon stage index : Nat}

theorem covers_closed_iff : (closed base horizon).Covers stage index ↔
    stage < horizon ∧ Shortlex.first base stage ≤ index ∧
      index < Shortlex.first base (stage + 1) := by
  rw [closed_eq_startingAt, covers_startingAt_iff (rising_first base)]

theorem closed_covers_le {earlier later stage' : Nat}
    (covered : (closed base horizon).Covers stage earlier)
    (covered' : (closed base horizon).Covers stage' later) (ordered : earlier ≤ later) :
    stage ≤ stage' :=
  covering_le (rising_first base) ordered (covers_closed_iff.mp covered).2.1
    (covers_closed_iff.mp covered').2.2

theorem exists_stageOf_closed (fits : Shortlex.first base horizon < wordBound)
    (inside : index < (closed base horizon).total) :
    ∃ stage, (closed base horizon).stageOf index = .ok stage ∧
      (closed base horizon).Covers stage index ∧
      ∀ other, (closed base horizon).Covers other index → other = stage := by
  rw [total_closed fits] at inside
  obtain ⟨stage, below, reached, ended⟩ := exists_covering rfl inside
  have covered : (closed base horizon).Covers stage index :=
    covers_closed_iff.mpr ⟨below, reached, ended⟩
  refine ⟨stage, stageOf_closed_of_covering fits below reached ended, covered, ?_⟩
  intro other covers
  exact Nat.le_antisymm (closed_covers_le covers covered (Nat.le_refl index))
    (closed_covers_le covered covers (Nat.le_refl index))

end Closed

theorem tally_and_lookup_are_inverse :
    (∀ noted : List Nat, noted.Pairwise (· ≤ ·) → noted.length < wordBound →
      (∀ stage ∈ noted, stage < wordBound) →
      (∀ last, noted.getLast? = some last → ∀ stage, stage ≤ last →
        (tally noted).sizeAt stage = .ok (noted.count stage) ∧
        (tally noted).startAt stage = .ok (noted.countP (· < stage))) ∧
      (tally noted).total = noted.length ∧
      (∀ index stage, noted[index]? = some stage → (tally noted).stageOf index = .ok stage) ∧
      (∀ index, noted.length ≤ index →
        ∃ cause, (tally noted).stageOf index = .error (.missing cause))) ∧
    (∀ base horizon layout, geometric base horizon = .ok layout →
      (∀ index, index < layout.total → ∃ stage, layout.stageOf index = .ok stage ∧
        layout.Covers stage index ∧ ∀ other, layout.Covers other index → other = stage) ∧
      (∀ earlier later, earlier ≤ later → later < layout.total →
        ∃ stage stage', layout.stageOf earlier = .ok stage ∧ layout.stageOf later = .ok stage' ∧
          stage ≤ stage')) := by
  constructor
  · intro noted sorted fits narrow
    refine ⟨fun last final stage ordered => ?_, total_tally sorted fits,
      fun index stage found => stageOf_tally sorted fits narrow found,
      fun index beyond => stageOf_tally_beyond sorted fits beyond⟩
    have inside := lt_reach_of_le final ordered
    exact ⟨sizeAt_tally sorted fits inside, startAt_tally sorted fits inside⟩
  · intro base horizon layout created
    obtain ⟨_, fits, rfl⟩ := geometric_eq_ok_iff.mp created
    constructor
    · intro index inside
      exact exists_stageOf_closed fits inside
    · intro earlier later ordered inside
      have before := Nat.lt_of_le_of_lt ordered inside
      obtain ⟨stage, found, covered, _⟩ := exists_stageOf_closed fits before
      obtain ⟨stage', found', covered', _⟩ := exists_stageOf_closed fits inside
      exact ⟨stage, stage', found, found', closed_covers_le covered covered' ordered⟩

/-- A stage that repeats, three that are skipped and one that is looked up. -/
theorem tally_and_lookup_are_inverse_skipping :
    (tally [0, 0, 2, 5]).sizeAt 0 = .ok 2 ∧ (tally [0, 0, 2, 5]).startAt 4 = .ok 3 ∧
      (tally [0, 0, 2, 5]).total = 4 ∧ (tally [0, 0, 2, 5]).stageOf 2 = .ok 2 := by
  obtain ⟨counted, total, found, _⟩ := tally_and_lookup_are_inverse.1 [0, 0, 2, 5]
    (by decide) (by decide) (by decide)
  exact ⟨(counted 5 rfl 0 (by decide)).1, (counted 5 rfl 4 (by decide)).2, total, found 2 2 rfl⟩

end TeamPlanning.StageLayout
