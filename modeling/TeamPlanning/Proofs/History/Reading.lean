import TeamPlanning.Proofs.History.Creation

/-! # Reading history spaces

What a reader of histories may rely on, however the space was built and whichever records were made
since. An alphabet without symbols is no exception: its space has the empty history only, in as many
stages as are planned for, and only one stage can be enumerated. -/

set_option autoImplicit false

namespace TeamPlanning

namespace HistorySpace

variable {c : HistoryKind} {ν : Type}

/-- The symbols that the number of a history spells. -/
def word (space : HistorySpace c ν) (index : Nat) : List (Symbol c) :=
  (Shortlex.spell space.base index).map (Symbol.ofDigit c · space.alphabet)

@[simp] theorem word_zero (space : HistorySpace c ν) : space.word 0 = [] := by
  simp [word]

/-- The space has the histories that its numbers spell, for every stage before the horizon, and
answers accordingly. -/
structure Reads (space : HistorySpace c ν) (horizon : Nat) : Prop where
  based : c.base space.alphabet = .ok space.base
  stages : space.layout.stages = horizon
  total : space.total = Shortlex.first space.base horizon
  stageOf : ∀ index, Answers (space.stageOf index)
    (if index < space.total then some (space.word index).length else none)
  symbols : ∀ index, Answers (space.symbols index)
    (if index < space.total then some (space.word index) else none)
  indexOf : ∀ word index,
    space.indexOf word = .ok index ↔ index < space.total ∧ space.word index = word
  successor : ∀ index next symbol, next < space.total →
    space.word next = space.word index ++ [symbol] → space.successor index symbol = .ok next
  proper : ∀ index, index < space.total →
    (∀ symbol ∈ space.word index, symbol.within space.alphabet = true) ∧
      (space.word index).length < horizon
  numbered : ∀ word, (∀ symbol ∈ word, symbol.within space.alphabet = true) →
    word.length < horizon → ∃ index, index < space.total ∧ space.word index = word

variable {space : HistorySpace c ν} {alphabet : Alphabet} {horizon : Nat} {note : ν}
  {noteOf : ν → Nat → Symbol c → Except Fault ν}

theorem Follows.word_eq {numbering : Numbering c} (follows : space.Follows numbering) :
    space.word = numbering.word := by
  funext index
  simp only [word, follows.shaped.alphabet, follows.shaped.base]
  rfl

theorem Follows.reads {numbering : Numbering c} (follows : space.Follows numbering) :
    space.Reads numbering.horizon := by
  have spelled := follows.word_eq
  have total := follows.shaped.total
  constructor
  case based =>
      rw [follows.shaped.alphabet, follows.shaped.base]
      exact numbering.based
  case stages => exact follows.shaped.stages
  case total =>
      rw [total, follows.shaped.base]
      rfl
  case stageOf =>
      rw [spelled, total]
      exact follows.stageOf
  case symbols =>
      rw [spelled, total]
      exact follows.symbols
  case indexOf =>
      intro word index
      rw [spelled, total]
      exact follows.indexOf_eq_ok_iff
  case successor =>
      intro index next symbol inside extended
      rw [spelled] at extended
      rw [total] at inside
      have proper := numbering.word_proper next
      rw [extended] at proper
      have reached : numbering.extend index symbol = next := by
        rw [← numbering.number_word next, extended, Numbering.number_append_singleton,
          numbering.number_word]
      have known := (Numbering.proper_append_singleton.mp proper).2
      exact follows.successor_eq_ok_iff.mpr ⟨⟨known, reached ▸ inside⟩, reached⟩
  case proper =>
      intro index inside
      rw [total] at inside
      rw [spelled, follows.shaped.alphabet]
      exact ⟨numbering.word_proper index, (Numbering.length_word_lt_iff index).mpr inside⟩
  case numbered =>
      intro word within short
      rw [follows.shaped.alphabet] at within
      rw [spelled, total]
      exact ⟨numbering.number word, (Numbering.number_lt_total_iff within).mpr short,
        Numbering.word_number within⟩

namespace Reads

variable (reads : space.Reads horizon)
include reads

/-- The beginning of a history is a history. -/
theorem earlier {index : Nat} {former later : List (Symbol c)} (inside : index < space.total)
    (split : space.word index = former ++ later) :
    ∃ before, before < space.total ∧ space.word before = former := by
  obtain ⟨within, short⟩ := reads.proper index inside
  rw [split] at within short
  rw [List.length_append] at short
  refine reads.numbered former (fun symbol member => ?_) (by omega)
  exact within symbol (List.mem_append_left later member)

theorem word_injective {index index' : Nat} (inside : index < space.total)
    (inside' : index' < space.total) (same : space.word index = space.word index') :
    index = index' :=
  Except.ok.inj (((reads.indexOf _ index).mpr ⟨inside, rfl⟩).symm.trans
    ((reads.indexOf _ index').mpr ⟨inside', same.symm⟩))

theorem stageOf_eq_ok_iff {index stage : Nat} :
    space.stageOf index = .ok stage ↔ index < space.total ∧ (space.word index).length = stage := by
  rw [(reads.stageOf index).eq_ok_iff]
  split <;> simp [*]

theorem symbols_eq_ok_iff {index : Nat} {word : List (Symbol c)} :
    space.symbols index = .ok word ↔ index < space.total ∧ space.word index = word := by
  rw [(reads.symbols index).eq_ok_iff]
  split <;> simp [*]

/-- A history that is not in the last stage is extended by every symbol of the alphabet. -/
theorem exists_extension {index : Nat} {symbol : Symbol c} (inside : index < space.total)
    (known : symbol.within space.alphabet = true)
    (room : (space.word index).length + 1 < horizon) :
    ∃ next, next < space.total ∧ space.word next = space.word index ++ [symbol] := by
  refine reads.numbered _ (fun other member => ?_) (by simpa using room)
  rcases List.mem_append.mp member with earlier | latest
  · exact (reads.proper index inside).1 other earlier
  · rwa [List.mem_singleton.mp latest]

/-- A successor is reached exactly where there is a history with one symbol more. -/
theorem successor_eq_ok_iff {index next : Nat} {symbol : Symbol c} :
    space.successor index symbol = .ok next ↔
      index < space.total ∧ next < space.total ∧
        space.word next = space.word index ++ [symbol] := by
  constructor
  · intro reached
    obtain ⟨digit, known, continued⟩ := bind_eq_ok_iff.mp reached
    obtain ⟨stage, staged, continued⟩ := bind_eq_ok_iff.mp continued
    obtain ⟨inside, rfl⟩ := reads.stageOf_eq_ok_iff.mp staged
    have known : symbol.within space.alphabet = true := by
      have answer := (Symbol.validDigit_answers symbol space.alphabet).eq_ok_iff.mp known
      by_contra foreign
      simp [foreign] at answer
    have room : (space.word index).length + 1 < horizon := by
      by_contra last
      rw [if_pos (by rw [reads.stages]; omega)] at continued
      cases continued
    obtain ⟨next', inside', extended⟩ := reads.exists_extension inside known room
    have reached' := reads.successor index next' symbol inside' extended
    obtain rfl : next' = next := Except.ok.inj (reached'.symm.trans reached)
    exact ⟨inside, inside', extended⟩
  · intro given
    obtain ⟨_, inside', extended⟩ := given
    exact reads.successor index next symbol inside' extended

end Reads

/-! ## Alphabets without symbols -/

/-- The base is zero, and every question is answered for the empty history alone. -/
structure Barren (space : HistorySpace c ν) (horizon : Nat) : Prop where
  based : c.base space.alphabet = .ok 0
  base : space.base = 0
  planned : 1 ≤ horizon
  stored : horizon < capacity
  layout : space.layout = StageLayout.closed 0 horizon
  held : (space.records.get? 0).isSome
  stageOf : ∀ index, Answers (space.stageOf index) (if index = 0 then some 0 else none)
  symbols : ∀ index, Answers (space.symbols index) (if index = 0 then some [] else none)
  indexOf_nil : space.indexOf [] = .ok 0

theorem first_zero_base (planned : 1 ≤ horizon) : Shortlex.first 0 horizon = 1 := by
  cases horizon with
  | zero => cases planned
  | succ _ => simp [Shortlex.first]

theorem layout_fits_of_no_symbols (planned : 1 ≤ horizon) :
    Shortlex.first 0 horizon < wordBound := by
  rw [first_zero_base planned]
  decide

/-- No stage but the first has histories, so the others start where it ends. -/
theorem layout_stageOf_of_no_symbols (planned : 1 ≤ horizon) (index : Nat) :
    Answers ((StageLayout.closed 0 horizon).stageOf index)
      (if index = 0 then some 0 else none) := by
  have fits := layout_fits_of_no_symbols planned
  cases index with
  | succ index =>
      refine StageLayout.stageOf_closed_beyond fits ?_
      rw [first_zero_base planned]
      omega
  | zero =>
      exact StageLayout.stageOf_closed_of_covering fits planned (Nat.le_refl 0)
        (Nat.lt_of_lt_of_eq Nat.one_pos (first_zero_base (Nat.le_refl 1)).symm)

theorem wordOf_of_no_symbols (planned : 1 ≤ horizon) (base : space.base = 0)
    (layout : space.layout = StageLayout.closed 0 horizon) (index : Nat) :
    Answers (space.wordOf index) (if index = 0 then some [] else none) := by
  have stage := layout_stageOf_of_no_symbols planned index
  rw [wordOf, layout, base]
  cases index with
  | zero =>
      have stage : (StageLayout.closed 0 horizon).stageOf 0 = .ok 0 := stage
      rw [bind_of_eq_ok stage, bind_of_eq_ok (StageLayout.startAt_closed planned)]
      rfl
  | succ index =>
      obtain ⟨cause, failed⟩ := stage
      exact ⟨cause, bind_of_eq_error failed _⟩

namespace Barren

variable (barren : space.Barren horizon)
include barren

theorem total : space.total = 1 := by
  have fits := layout_fits_of_no_symbols barren.planned
  rw [HistorySpace.total, barren.layout, StageLayout.total_closed fits,
    first_zero_base barren.planned]

theorem indexOf_cons (symbol : Symbol c) (word : List (Symbol c)) :
    ∃ cause, space.indexOf (symbol :: word) = .error (.missing cause) := by
  have foreign : ¬ ∀ other ∈ symbol :: word, other.within space.alphabet = true := by
    intro within
    have below := Symbol.digit_lt_base barren.based (within symbol List.mem_cons_self)
    exact Nat.not_lt_zero _ below
  have answers := Symbol.mapM_validDigit_answers (symbol :: word) space.alphabet
  rw [if_neg foreign] at answers
  obtain ⟨cause, failed⟩ := answers
  exact ⟨cause, bind_of_eq_error failed _⟩

theorem reads : space.Reads horizon := by
  have total := barren.total
  have only : ∀ index, index < space.total ↔ index = 0 := by
    intro index
    omega
  have empty := space.word_zero
  constructor
  case based => rw [barren.base, barren.based]
  case stages => rw [barren.layout, StageLayout.stages_closed]
  case total => rw [total, barren.base, first_zero_base barren.planned]
  case stageOf =>
      intro index
      have answers := barren.stageOf index
      cases index with
      | zero => simpa [only, empty] using answers
      | succ index => simpa [only] using answers
  case symbols =>
      intro index
      have answers := barren.symbols index
      cases index with
      | zero => simpa [only, empty] using answers
      | succ index => simpa [only] using answers
  case indexOf =>
      intro word index
      cases word with
      | nil =>
          rw [barren.indexOf_nil]
          constructor
          · intro same
            cases same
            exact ⟨(only 0).mpr rfl, empty⟩
          · intro ⟨inside, _⟩
            rw [(only index).mp inside]
      | cons symbol word =>
          obtain ⟨cause, failed⟩ := barren.indexOf_cons symbol word
          rw [failed]
          constructor
          · intro accepted
            cases accepted
          · intro ⟨inside, spelled⟩
            rw [(only index).mp inside, empty] at spelled
            cases spelled
  case successor =>
      intro index next symbol inside extended
      rw [(only next).mp inside, empty] at extended
      simp at extended
  case proper =>
      intro index inside
      rw [(only index).mp inside, empty]
      exact ⟨by simp, barren.planned⟩
  case numbered =>
      intro word within _
      cases word with
      | nil => exact ⟨0, (only 0).mpr rfl, empty⟩
      | cons symbol word =>
          have below := Symbol.digit_lt_base barren.based (within symbol List.mem_cons_self)
          cases below

/-- There is no record to be made. -/
theorem hold (index : Nat) (noteOf : ν → Nat → Symbol c → Except Fault ν) :
    (space.hold index noteOf).2 = space := by
  rw [HistorySpace.hold]
  cases index with
  | zero => rw [if_pos barren.held]
  | succ index =>
      split
      · rfl
      · obtain ⟨cause, failed⟩ :=
          wordOf_of_no_symbols barren.planned barren.base barren.layout (index + 1)
        rw [failed]

end Barren

theorem barren_of_closedForm (based : c.base alphabet = .ok 0) (planned : 1 ≤ horizon)
    (created : closedForm alphabet horizon note = .ok space) : space.Barren horizon := by
  rw [closedForm, bind_of_eq_ok based] at created
  obtain ⟨layout, laid, created⟩ := bind_eq_ok_iff.mp created
  obtain ⟨stored, _, rfl⟩ := StageLayout.geometric_eq_ok_iff.mp laid
  cases created
  constructor
  case based => exact based
  case base => rfl
  case planned => exact planned
  case stored => exact stored
  case layout => rfl
  case held => rfl
  case stageOf => exact layout_stageOf_of_no_symbols planned
  case symbols => exact wordOf_of_no_symbols planned rfl rfl
  case indexOf_nil =>
      have started : (StageLayout.closed 0 horizon).startAt 0 = .ok 0 :=
        StageLayout.startAt_closed planned
      exact bind_of_eq_ok started _

theorem Visit.stages_nil (noteOf : ν → Nat → Symbol c → Except Fault ν) (alphabet : Alphabet)
    (base further : Nat) (visit : Visit c ν) :
    Visit.stages noteOf alphabet base further [] visit = .ok visit := by
  induction further with
  | zero => rfl
  | succ further ih => exact ih

theorem visit_of_no_symbols (noteOf : ν → Nat → Symbol c → Except Fault ν) (alphabet : Alphabet)
    (further : Nat) :
    Visit.stages noteOf alphabet 0 further [Trie.root]
        ⟨Trie.singleton (Record.start note), #[], StageLayout.empty⟩ =
      .ok ⟨⟨#[some ⟨.entry (some 0) (Record.start note), none, []⟩], []⟩, #[0], ⟨#[], #[0]⟩⟩ := by
  cases further with
  | zero => rfl
  | succ further => exact Visit.stages_nil noteOf alphabet 0 further _

/-- The tally knows one stage only, so an enumeration succeeds for that many. -/
theorem enumerate_of_no_symbols (based : c.base alphabet = .ok 0) (planned : 1 ≤ horizon)
    (stored : horizon < capacity) (note : ν) (noteOf : ν → Nat → Symbol c → Except Fault ν) :
    enumerate alphabet horizon note noteOf =
      if horizon = 1 then
        .ok ⟨alphabet, 0, StageLayout.closed 0 1,
          .dense ⟨#[some ⟨.entry (some 0) (Record.start note), none, []⟩], []⟩ #[0], true⟩
      else .error (.inconsistent c) := by
  have fits := layout_fits_of_no_symbols planned
  have tallied : (StageLayout.mk #[] #[0]).finish 1 = ⟨#[1], #[0]⟩ := by decide +kernel
  rw [enumerate, bind_of_eq_ok based,
    bind_of_eq_ok (StageLayout.geometric_eq_ok_iff.mpr ⟨stored, fits, rfl⟩),
    bind_of_eq_ok (visit_of_no_symbols noteOf alphabet _)]
  by_cases single : horizon = 1
  · subst single
    have same : (⟨#[1], #[0]⟩ : StageLayout) = StageLayout.closed 0 1 := rfl
    have summed : Bounded.geometricSum 0 1 = .ok 1 := rfl
    simp only [List.size_toArray, List.length_cons, List.length_nil, Nat.zero_add, tallied, same,
      summed, ne_eq, not_true_eq_false, ↓reduceIte]
    rfl
  · have different : (⟨#[1], #[0]⟩ : StageLayout) ≠ StageLayout.closed 0 horizon := by
      intro same
      have stages := congrArg StageLayout.stages same
      rw [StageLayout.stages_closed] at stages
      exact single stages.symm
    simp only [List.size_toArray, List.length_cons, List.length_nil, Nat.zero_add, tallied,
      different, single, ne_eq, not_false_eq_true, ↓reduceIte]
    rfl

theorem barren_of_enumerate (based : c.base alphabet = .ok 0) (planned : 1 ≤ horizon)
    (created : enumerate alphabet horizon note noteOf = .ok space) : space.Barren horizon := by
  obtain ⟨layout, laid⟩ := exists_layout based (.inl created)
  have stored := (StageLayout.geometric_eq_ok_iff.mp laid).1
  rw [enumerate_of_no_symbols based planned stored] at created
  split at created
  · rename_i single
    subst single
    cases created
    constructor
    case based => exact based
    case base => rfl
    case planned => exact planned
    case stored => exact stored
    case layout => rfl
    case held => rfl
    case indexOf_nil => rfl
    all_goals
      intro index
      cases index with
      | zero => rfl
      | succ index => exact ⟨_, rfl⟩
  · cases created

theorem barren_of_created (based : c.base alphabet = .ok 0) (planned : 1 ≤ horizon)
    (created : enumerate alphabet horizon note noteOf = .ok space ∨
      closedForm alphabet horizon note = .ok space) : space.Barren horizon := by
  rcases created with created | created
  · exact barren_of_enumerate based planned created
  · exact barren_of_closedForm based planned created

/-- A space that was built can be read, whether its alphabet has symbols or not. -/
theorem reads_of_created (planned : 1 ≤ horizon)
    (created : enumerate alphabet horizon note noteOf = .ok space ∨
      closedForm alphabet horizon note = .ok space) : space.Reads horizon := by
  have based : ∃ base, c.base alphabet = .ok base := by
    rcases created with created | created
    all_goals
      obtain ⟨base, based, _⟩ := bind_eq_ok_iff.mp created
      exact ⟨base, based⟩
  obtain ⟨base, based⟩ := based
  cases base with
  | zero => exact (barren_of_created based planned created).reads
  | succ base =>
      obtain ⟨numbering, rfl, rfl⟩ := exists_numbering based (Nat.succ_pos base) created
      exact (follows_of_created created).reads

theorem alphabet_of_created
    (created : enumerate alphabet horizon note noteOf = .ok space ∨
      closedForm alphabet horizon note = .ok space) : space.alphabet = alphabet := by
  rcases created with created | created
  · obtain ⟨base, _, created⟩ := bind_eq_ok_iff.mp created
    obtain ⟨layout, _, created⟩ := bind_eq_ok_iff.mp created
    obtain ⟨visit, _, created⟩ := bind_eq_ok_iff.mp created
    dsimp only at created
    split at created
    · cases created
    · obtain ⟨total, _, created⟩ := bind_eq_ok_iff.mp created
      split at created
      · cases created
      · cases created
        rfl
  · obtain ⟨base, _, created⟩ := bind_eq_ok_iff.mp created
    obtain ⟨layout, _, created⟩ := bind_eq_ok_iff.mp created
    obtain ⟨records, _, created⟩ := bind_eq_ok_iff.mp created
    cases created
    rfl

theorem exists_closedForm
    (created : enumerate alphabet horizon note noteOf = .ok space ∨
      closedForm alphabet horizon note = .ok space) :
    ∃ space : HistorySpace c ν, closedForm alphabet horizon note = .ok space := by
  rcases created with created | created
  · obtain ⟨base, based, created⟩ := bind_eq_ok_iff.mp created
    obtain ⟨layout, laid, _⟩ := bind_eq_ok_iff.mp created
    rw [closedForm, bind_of_eq_ok based, bind_of_eq_ok laid]
    exact ⟨_, rfl⟩
  · exact ⟨space, created⟩

/-- The alphabet and the horizon decide on the numbers. -/
theorem Reads.same_numbers {space' : HistorySpace c ν} (reads : space.Reads horizon)
    (reads' : space'.Reads horizon) (same : space.alphabet = space'.alphabet) :
    space.total = space'.total ∧ space.word = space'.word := by
  have based := reads.based
  rw [same, reads'.based] at based
  have base : space'.base = space.base := Except.ok.inj based
  refine ⟨by rw [reads.total, reads'.total, base], ?_⟩
  funext index
  rw [word, word, base, same]

end HistorySpace

/-! ## Teams -/

namespace TeamSpace

variable {c : HistoryKind} {alphabets : List Alphabet} {horizon : Nat}
  {eagerIndividual eagerJoint : Bool}

theorem reads_of_create {space : TeamSpace c} (planned : 1 ≤ horizon)
    (created : create alphabets horizon eagerIndividual eagerJoint = .ok space) :
    space.team.Reads horizon := by
  obtain ⟨_, _, joint, _, teamed⟩ := create_eq_ok_iff.mp created
  exact HistorySpace.reads_of_created planned teamed.created

theorem joint_of_create {space : TeamSpace c}
    (created : create alphabets horizon eagerIndividual eagerJoint = .ok space) :
    Alphabet.joint alphabets = .ok space.team.alphabet := by
  obtain ⟨_, _, joint, joined, teamed⟩ := create_eq_ok_iff.mp created
  rw [joined, HistorySpace.alphabet_of_created teamed.created]

theorem exists_create_closedForm {space : TeamSpace c}
    (created : create alphabets horizon eagerIndividual eagerJoint = .ok space) :
    ∃ space : TeamSpace c, create alphabets horizon eagerIndividual false = .ok space := by
  obtain ⟨_, seated, joint, joined, teamed⟩ := create_eq_ok_iff.mp created
  obtain ⟨team, described⟩ := HistorySpace.exists_closedForm teamed.created
  exact ⟨⟨alphabets, space.agents, team⟩,
    create_eq_ok_iff.mpr ⟨rfl, seated, joint, joined, .inr ⟨rfl, described⟩⟩⟩

/-- The joint histories of a created team, with any records made on demand since. -/
def Intact (space : TeamSpace .actionObservation) (alphabets : List Alphabet) (horizon : Nat) :
    Prop :=
  Alphabet.joint alphabets = .ok space.team.alphabet ∧
    (space.team.Barren horizon ∨
      ∃ roster : Roster .actionObservation, roster.team.horizon = horizon ∧ space.Charted roster)

namespace Intact

variable {space : TeamSpace .actionObservation}

theorem of_create (planned : 1 ≤ horizon)
    (created : create alphabets horizon eagerIndividual eagerJoint = .ok space) :
    space.Intact alphabets horizon := by
  have joined := joint_of_create created
  refine ⟨joined, ?_⟩
  obtain ⟨_, _, joint, joined', teamed⟩ := create_eq_ok_iff.mp created
  have same : joint = space.team.alphabet := Except.ok.inj (joined'.symm.trans joined)
  have based := (HistorySpace.reads_of_created planned teamed.created).based
  cases base : space.team.base with
  | zero =>
      rw [base, ← same] at based
      exact .inl (HistorySpace.barren_of_created based planned teamed.created)
  | succ digits =>
      obtain ⟨roster, rfl, rfl⟩ := exists_roster_of_joint_base joined based
        (by rw [base]; exact Nat.succ_pos digits) created
      exact .inr ⟨roster, rfl, charted_of_create planned created⟩

theorem reads (intact : space.Intact alphabets horizon) : space.team.Reads horizon := by
  obtain ⟨_, barren | ⟨roster, rfl, charted⟩⟩ := intact
  · exact barren.reads
  · exact charted.team.follows.reads

/-- A record made on demand changes no answer. -/
theorem hold (intact : space.Intact alphabets horizon) (index : Nat) :
    (space.hold index).2.Intact alphabets horizon := by
  obtain ⟨joined, barren | ⟨roster, rfl, charted⟩⟩ := intact
  · have same : (space.hold index).2.team = space.team := barren.hold index _
    rw [Intact, same]
    exact ⟨joined, .inl barren⟩
  · have held := charted.hold index
    have same : (space.hold index).2.team.alphabet = space.team.alphabet := by
      rw [held.team.follows.shaped.alphabet, charted.team.follows.shaped.alphabet]
    exact ⟨by rw [joined, same], .inr ⟨roster, rfl, held⟩⟩

end Intact

end TeamSpace

end TeamPlanning
