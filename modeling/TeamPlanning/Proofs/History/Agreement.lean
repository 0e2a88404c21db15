import TeamPlanning.Proofs.History.Enumeration

/-! # Two ways of keeping histories

However a space was built, it follows the numbering of its histories. So eager spaces and spaces in
closed form cannot be told apart by their answers, and the numbers are those of the words in order
of length and then of digits. -/

set_option autoImplicit false

namespace TeamPlanning.HistorySpace

variable {c : HistoryKind} {ν : Type} {space : HistorySpace c ν} {numbering : Numbering c}

theorem charted_of_enumerate (numbering : Numbering c) (planned : 0 < numbering.horizon) {note : ν}
    {noteOf : ν → Nat → Symbol c → Except Fault ν}
    (created : enumerate numbering.alphabet numbering.horizon note noteOf = .ok space) :
    space.eager = true ∧ space.Charted numbering (numbering.Noted note noteOf) :=
  (enumerate_meets numbering planned note noteOf).of_eq_ok created

/-- Without a stage there is no history, but an enumeration starts with the empty one. -/
theorem enumerate_unplanned {alphabet : Alphabet} {note : ν}
    {noteOf : ν → Nat → Symbol c → Except Fault ν} :
    enumerate alphabet 0 note noteOf ≠ .ok space := by
  intro created
  obtain ⟨base, _, created⟩ := bind_eq_ok_iff.mp created
  have visited : Visit.stages noteOf alphabet base (0 - 1) [Trie.root]
      ⟨Trie.singleton (Record.start note), #[], StageLayout.empty⟩ =
        .ok ⟨⟨#[some ⟨.entry (some 0) (Record.start note), none, []⟩], []⟩, #[0], ⟨#[], #[0]⟩⟩ :=
    rfl
  rw [bind_of_eq_ok (show StageLayout.geometric base 0 = .ok StageLayout.empty from rfl),
    bind_of_eq_ok visited] at created
  cases created

/-- Whichever way a space was built, the stages were laid out first. -/
theorem exists_layout {alphabet : Alphabet} {base horizon : Nat} {note : ν}
    {noteOf : ν → Nat → Symbol c → Except Fault ν} (based : c.base alphabet = .ok base)
    (created : enumerate alphabet horizon note noteOf = .ok space ∨
      closedForm alphabet horizon note = .ok space) :
    ∃ layout, StageLayout.geometric base horizon = .ok layout := by
  rcases created with created | created
  all_goals
    obtain ⟨base', based', created⟩ := bind_eq_ok_iff.mp created
    obtain ⟨layout, laid, _⟩ := bind_eq_ok_iff.mp created
    obtain rfl : base = base' := Except.ok.inj (based.symm.trans based')
    exact ⟨layout, laid⟩

/-- A space that was built describes the histories of a numbering. -/
theorem exists_numbering {alphabet : Alphabet} {base horizon : Nat} {note : ν}
    {noteOf : ν → Nat → Symbol c → Except Fault ν} (based : c.base alphabet = .ok base)
    (inhabited : 0 < base)
    (created : enumerate alphabet horizon note noteOf = .ok space ∨
      closedForm alphabet horizon note = .ok space) :
    ∃ numbering : Numbering c, numbering.alphabet = alphabet ∧ numbering.horizon = horizon := by
  obtain ⟨layout, laid⟩ := exists_layout based created
  obtain ⟨stored, fits, _⟩ := StageLayout.geometric_eq_ok_iff.mp laid
  exact ⟨⟨alphabet, base, horizon, based, inhabited, fits, stored⟩, rfl, rfl⟩

theorem follows_of_created {note : ν} {noteOf : ν → Nat → Symbol c → Except Fault ν}
    (created : enumerate numbering.alphabet numbering.horizon note noteOf = .ok space ∨
      closedForm numbering.alphabet numbering.horizon note = .ok space) :
    space.Follows numbering := by
  rcases created with created | created
  · have planned : 0 < numbering.horizon := by
      refine Nat.pos_of_ne_zero fun unplanned => ?_
      rw [unplanned] at created
      exact enumerate_unplanned created
    exact (charted_of_enumerate numbering planned created).2.follows
  · obtain ⟨records, _, success⟩ := closedForm_eq_ok numbering note
    rw [created] at success
    cases success
    exact Shaped.follows_of_lazy ⟨rfl, rfl, rfl⟩ rfl

/-- An enumeration whose notes are never refused succeeds, and answers like the closed form. -/
theorem enumerate_agrees_closedForm {alphabet : Alphabet} {base horizon : Nat}
    {layout : StageLayout} (based : c.base alphabet = .ok base) (inhabited : 1 ≤ base)
    (planned : 1 ≤ horizon) (laid : StageLayout.geometric base horizon = .ok layout) (note : ν)
    (noteOf : ν → Nat → Symbol c → ν) :
    ∃ eager lazy : HistorySpace c ν,
      enumerate alphabet horizon note (fun held index symbol => .ok (noteOf held index symbol)) =
          .ok eager ∧
        closedForm alphabet horizon note = .ok lazy ∧
        eager.eager = true ∧ lazy.eager = false ∧
        eager.layout = lazy.layout ∧ eager.total = lazy.total ∧
        (∀ index, SameOutcome (eager.stageOf index) (lazy.stageOf index)) ∧
        (∀ index symbol,
          SameOutcome (eager.successor index symbol) (lazy.successor index symbol)) ∧
        (∀ index, SameOutcome (eager.symbols index) (lazy.symbols index)) ∧
        ∀ word, SameOutcome (eager.indexOf word) (lazy.indexOf word) := by
  obtain ⟨stored, fits, _⟩ := StageLayout.geometric_eq_ok_iff.mp laid
  let numbering : Numbering c := ⟨alphabet, base, horizon, based, inhabited, fits, stored⟩
  obtain ⟨eager, enumerated, isEager, charted⟩ :=
    (enumerate_meets numbering planned note fun held index symbol =>
      .ok (noteOf held index symbol)).exists_eq_ok fun fault ⟨_, _, _, _, _, _, refused⟩ => by
        cases refused
  obtain ⟨lazy, described, isLazy, charted'⟩ :=
    Charted.closedForm numbering planned (fun index held => index = 0 → held = note) fun _ => rfl
  have follows := charted.follows
  have follows' := charted'.follows
  refine ⟨eager, lazy, enumerated, described, isEager, isLazy, ?_, ?_, ?_, ?_, ?_, ?_⟩
  · rw [follows.shaped.layout, follows'.shaped.layout]
  · rw [follows.shaped.total, follows'.shaped.total]
  · exact fun index => (follows.stageOf index).sameOutcome (follows'.stageOf index)
  · exact fun index symbol =>
      (follows.successor index symbol).sameOutcome (follows'.successor index symbol)
  · exact fun index => (follows.symbols index).sameOutcome (follows'.symbols index)
  · exact fun word => (follows.indexOf word).sameOutcome (follows'.indexOf word)

/-- Pairs of two actions and three observations, over two stages. -/
theorem enumerate_agrees_closedForm_pairs :
    HistoryKind.base .actionObservation ⟨2, 3⟩ = .ok 6 ∧
      StageLayout.geometric 6 2 = .ok (StageLayout.closed 6 2) ∧
      ∃ eager lazy : HistorySpace .actionObservation Unit,
        enumerate ⟨2, 3⟩ 2 () (fun _ _ _ => .ok ()) = .ok eager ∧
          closedForm ⟨2, 3⟩ 2 () = .ok lazy ∧
          ∀ index symbol,
            SameOutcome (eager.successor index symbol) (lazy.successor index symbol) := by
  have laid : StageLayout.geometric 6 2 = .ok (StageLayout.closed 6 2) := rfl
  have based : HistoryKind.base .actionObservation ⟨2, 3⟩ = .ok 6 := rfl
  obtain ⟨eager, lazy, enumerated, described, _, _, _, _, _, successor, _⟩ :=
    enumerate_agrees_closedForm based (by decide) (by decide) laid () fun _ _ _ => ()
  exact ⟨based, laid, eager, lazy, enumerated, described, successor⟩

/-- The numbers below the total are the words within the alphabet and the horizon, in the order of
length and then of digits, and every question is answered as the words say. -/
theorem numbers_are_words_in_order {alphabet : Alphabet} {base horizon : Nat} {note : ν}
    {noteOf : ν → Nat → Symbol c → Except Fault ν} (based : c.base alphabet = .ok base)
    (inhabited : 1 ≤ base)
    (created : enumerate alphabet horizon note noteOf = .ok space ∨
      closedForm alphabet horizon note = .ok space) :
    (∀ word, (∃ index, space.indexOf word = .ok index) ↔
        (∀ symbol ∈ word, symbol.within alphabet = true) ∧ word.length < horizon) ∧
      (∀ index, (∃ word, space.indexOf word = .ok index) ↔ index < space.total) ∧
      (∀ word word' index, space.indexOf word = .ok index → space.indexOf word' = .ok index →
        word = word') ∧
      (∀ word index, space.indexOf word = .ok index ↔ space.symbols index = .ok word) ∧
      (∀ index index' word word', space.symbols index = .ok word →
        space.symbols index' = .ok word' →
        (index < index' ↔ word.length < word'.length ∨ word.length = word'.length ∧
          word.map (·.digit alphabet) < word'.map (·.digit alphabet))) ∧
      (∀ word index, space.indexOf word = .ok index → space.stageOf index = .ok word.length) ∧
      ∀ word index symbol, space.indexOf word = .ok index → symbol.within alphabet = true →
        word.length + 1 < horizon →
        ∃ next, space.successor index symbol = .ok next ∧
          space.indexOf (word ++ [symbol]) = .ok next := by
  obtain ⟨numbering, rfl, rfl⟩ := exists_numbering based inhabited created
  have follows := follows_of_created created
  refine ⟨?_, ?_, ?_, ?_, ?_, ?_, ?_⟩
  · intro word
    constructor
    · intro given
      obtain ⟨index, found⟩ := given
      obtain ⟨proper, short, _⟩ :=
        Numbering.proper_number_iff.mpr (follows.indexOf_eq_ok_iff.mp found)
      exact ⟨proper, short⟩
    · intro given
      obtain ⟨proper, short⟩ := given
      exact ⟨numbering.number word,
        follows.indexOf_eq_ok_iff.mpr (Numbering.proper_number_iff.mp ⟨proper, short, rfl⟩)⟩
  · intro index
    rw [follows.shaped.total]
    constructor
    · intro given
      obtain ⟨word, found⟩ := given
      exact (follows.indexOf_eq_ok_iff.mp found).1
    · intro inside
      exact ⟨numbering.word index, follows.indexOf_eq_ok_iff.mpr ⟨inside, rfl⟩⟩
  · intro word word' index found found'
    obtain ⟨_, rfl⟩ := follows.indexOf_eq_ok_iff.mp found
    exact (follows.indexOf_eq_ok_iff.mp found').2
  · intro word index
    rw [follows.indexOf_eq_ok_iff, follows.symbols_eq_ok_iff]
  · intro index index' word word' read read'
    obtain ⟨_, rfl⟩ := follows.symbols_eq_ok_iff.mp read
    obtain ⟨_, rfl⟩ := follows.symbols_eq_ok_iff.mp read'
    exact Numbering.lt_iff
  · intro word index found
    obtain ⟨inside, rfl⟩ := follows.indexOf_eq_ok_iff.mp found
    exact follows.stageOf_eq_ok_iff.mpr ⟨inside, rfl⟩
  · intro word index symbol found known room
    obtain ⟨inside, rfl⟩ := follows.indexOf_eq_ok_iff.mp found
    have next := (Numbering.extend_lt_total_iff known index).mpr room
    exact ⟨numbering.extend index symbol,
      follows.successor_eq_ok_iff.mpr ⟨⟨known, next⟩, rfl⟩,
      follows.indexOf_eq_ok_iff.mpr ⟨next, Numbering.word_extend known index⟩⟩

/-- Observations of two values, over three stages, in closed form. -/
theorem numbers_are_words_in_order_closedForm :
    ∃ space : HistorySpace .observation Unit, closedForm ⟨1, 2⟩ 3 () = .ok space ∧
      HistoryKind.base .observation ⟨1, 2⟩ = .ok 2 ∧
      ∀ index, (∃ word, space.indexOf word = .ok index) ↔ index < space.total := by
  obtain ⟨space, created⟩ :
      ∃ space : HistorySpace .observation Unit, closedForm ⟨1, 2⟩ 3 () = .ok space := ⟨_, rfl⟩
  have built : enumerate ⟨1, 2⟩ 3 () (fun _ _ _ => .ok ()) = .ok space ∨
      closedForm ⟨1, 2⟩ 3 () = .ok space := .inr created
  obtain ⟨_, dense, _⟩ := numbers_are_words_in_order rfl (by decide) built
  exact ⟨space, created, rfl, dense⟩

end TeamPlanning.HistorySpace
