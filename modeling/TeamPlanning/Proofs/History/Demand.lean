import TeamPlanning.Proofs.History.Creation

/-! # What requests for records leave behind

A space in closed form serves requests one after the other, and the notes on the way to a history may
be refused at any point. Whatever has been refused, the records held are those of an eager space, with
the records of all shorter histories on the way, and no answer depends on which ones are held. -/

set_option autoImplicit false

namespace TeamPlanning

variable {c : HistoryKind} {ν : Type}

/-- A history has one note, as far as its making is determined. -/
theorem Numbering.Noted.functional {numbering : Numbering c} {note : ν}
    {noteOf : ν → Nat → Symbol c → Except Fault ν} {index : Nat} {held held' : ν}
    (made : numbering.Noted note noteOf index held)
    (made' : numbering.Noted note noteOf index held') : held = held' := by
  induction made generalizing held' with
  | empty =>
      generalize first : 0 = index at made'
      cases made' with
      | empty => rfl
      | extend => exact absurd first.symm (Nat.succ_ne_zero _)
  | @extend index symbol held next _ known success ih =>
      generalize reached : numbering.extend index symbol = number at made'
      cases made' with
      | empty => exact absurd reached (Nat.succ_ne_zero _)
      | extend earlier known' success' =>
          obtain ⟨rfl, rfl⟩ := Numbering.extend_injective known known' reached
          rw [ih earlier, success'] at success
          exact (Except.ok.inj success).symm

namespace HistorySpace

/-- A request for the record of a history, with the notes that it offers. -/
structure Request (c : HistoryKind) (ν : Type) where
  index : Nat
  noteOf : ν → Nat → Symbol c → Except Fault ν

/-- The request may refuse any note, but offers no other than the right one. -/
def Request.Honest (request : Request c ν) (noteOf : ν → Nat → Symbol c → Except Fault ν) : Prop :=
  ∀ held index symbol, request.noteOf held index symbol = noteOf held index symbol ∨
    ∃ fault, request.noteOf held index symbol = .error fault

def holdAll (space : HistorySpace c ν) (requests : List (Request c ν)) : HistorySpace c ν :=
  requests.foldl (fun space request => (space.hold request.index request.noteOf).2) space

/-- The symbols of one history begin those of another. -/
def Begins (space : HistorySpace c ν) (former latter : Nat) : Prop :=
  ∃ word rest, space.symbols former = .ok word ∧ space.symbols latter = .ok (word ++ rest)

/-- What the request answers when asked for the note of a history, with what an eager space holds of
the history that it extends. -/
def Request.Asked (request : Request c ν) (eager : HistorySpace c ν) (index : Nat)
    (answer : Except Fault ν) : Prop :=
  ∃ predecessor last before note record,
    eager.record index = .ok ⟨.extension predecessor last before, note⟩ ∧
      eager.record predecessor = .ok record ∧
        request.noteOf record.note predecessor last = answer

/-- The records held are filed where they belong and are those of the eager space, and the space
answers as it did at the start. -/
structure Agrees (space start eager : HistorySpace c ν) : Prop where
  empty : space.Holds 0
  closed : ∀ index record predecessor, space.Holds index → space.record index = .ok record →
    record.history.predecessor? = some predecessor → space.Holds predecessor
  filed : ∀ index v, space.records.vertex? index = some v → space.trie.index v = .ok index ∧
    ∃ record, space.trie.value v = .ok record ∧ space.record index = .ok record ∧
      eager.record index = .ok record
  looked_up : ∀ index noteOf, space.Holds index →
    space.hold index noteOf = (space.record index, space)
  stageOf : space.stageOf = start.stageOf
  symbols : space.symbols = start.symbols
  indexOf : space.indexOf = start.indexOf
  successor : space.successor = start.successor
  total : space.total = start.total

/-- What one more request does to the records held. -/
structure Serves (before eager : HistorySpace c ν) (request : Request c ν)
    (outcome : Except Fault (Record c ν)) (after : HistorySpace c ν) : Prop where
  kept : ∀ index v, before.records.vertex? index = some v →
    after.records.vertex? index = some v ∧ after.record index = before.record index
  made : ∀ record, outcome = .ok record → eager.record request.index = .ok record ∧
    (∀ index, after.Holds index ↔ before.Holds index ∨ before.Begins index request.index) ∧
      ∀ index answer, ¬ before.Holds index → before.Begins index request.index →
        request.Asked eager index answer → ∃ note, answer = .ok note
  refused : ∀ fault, outcome = .error fault →
    (before.total ≤ request.index ∧ after = before) ∨
      ∃ refused, before.Begins refused request.index ∧ ¬ after.Holds refused ∧
        request.Asked eager refused (.error fault) ∧
          ∀ index, after.Holds index ↔
            before.Holds index ∨ (before.Begins index refused ∧ index ≠ refused)

section Lazy

variable {space start : HistorySpace c ν} {numbering : Numbering c} {index : Nat}

/-- Without its records, a space in closed form is determined by its numbering. -/
theorem Shaped.answers_eq (shaped : space.Shaped numbering) (shaped' : start.Shaped numbering)
    (lazy : space.eager = false) (lazy' : start.eager = false) :
    space.stageOf = start.stageOf ∧ space.symbols = start.symbols ∧
      space.indexOf = start.indexOf ∧ space.successor = start.successor := by
  have alphabet := shaped.alphabet.trans shaped'.alphabet.symm
  have base := shaped.base.trans shaped'.base.symm
  have layout := shaped.layout.trans shaped'.layout.symm
  have stageOf : space.stageOf = start.stageOf := by
    funext index
    simp only [HistorySpace.stageOf, lazy, lazy', Bool.false_eq_true, ↓reduceIte, layout]
  refine ⟨stageOf, ?_, ?_, ?_⟩
  · funext index
    simp only [HistorySpace.symbols, lazy, lazy', Bool.false_eq_true, ↓reduceIte, wordOf, layout, base,
      alphabet]
  · funext word
    simp only [HistorySpace.indexOf, lazy, lazy', Bool.false_eq_true, ↓reduceIte, layout, base, alphabet]
  · funext index symbol
    simp only [HistorySpace.successor, lazy, lazy', Bool.false_eq_true, ↓reduceIte, stageOf,
      successorNumber, layout, base, alphabet]

end Lazy

section Served

variable {before start eager : HistorySpace c ν} {numbering : Numbering c} {note : ν}
  {noteOf : ν → Nat → Symbol c → Except Fault ν} {request : Request c ν} {index : Nat}

theorem Request.Honest.inherited (honest : request.Honest noteOf) (numbering : Numbering c)
    (note : ν) : numbering.Inherited (numbering.Noted note noteOf) request.noteOf := by
  intro index symbol held next noted known offered
  rcases honest held index symbol with same | ⟨fault, refused⟩
  · exact .extend noted known (same.symm.trans offered)
  · rw [refused] at offered
    cases offered

theorem Follows.begins_iff (follows : before.Follows numbering) (inside : index < numbering.total)
    {former : Nat} : before.Begins former index ↔
      ∃ word, word <+: numbering.word index ∧ word.foldl numbering.extend 0 = former := by
  unfold Begins
  simp only [follows.symbols_eq_ok_iff]
  constructor
  · rintro ⟨word, rest, ⟨_, rfl⟩, _, split⟩
    refine ⟨numbering.word former, ⟨rest, split.symm⟩, ?_⟩
    rw [← numbering.number_eq_foldl, numbering.number_word]
  · rintro ⟨word, ⟨rest, split⟩, rfl⟩
    have proper := numbering.word_proper index
    have short := (Numbering.length_word_lt_iff index).mpr inside
    rw [← split] at proper short
    have known : numbering.Proper word := fun symbol member =>
      proper symbol (List.mem_append_left rest member)
    rw [List.length_append] at short
    rw [← numbering.number_eq_foldl]
    exact ⟨word, rest, ⟨(Numbering.number_lt_total_iff known).mpr (by omega),
      Numbering.word_number known⟩, inside, split.symm⟩

theorem Charted.holds_of_prefix {noted : Nat → ν → Prop} (charted : before.Charted numbering noted)
    (held : before.Holds index) {word : List (Symbol c)} (short : word <+: numbering.word index) :
    before.Holds (word.foldl numbering.extend 0) := by
  obtain ⟨rest, split⟩ := short
  -- A record that is missing is missing with all that extend it.
  by_contra absent
  have proper : numbering.Proper rest := fun symbol member =>
    numbering.word_proper index symbol (split ▸ List.mem_append_right word member)
  have whole := numbering.number_word index
  rw [← split, numbering.number_eq_foldl, List.foldl_append] at whole
  have missing := charted.vertex?_foldl_of_absent proper (Charted.vertex?_of_absent absent)
  rw [whole] at missing
  obtain ⟨v, found⟩ := held
  rw [missing] at found
  cases found

theorem Charted.record_eq (charted : before.Charted numbering (numbering.Noted note noteOf))
    (complete : eager.Charted numbering (numbering.Noted note noteOf)) (isEager : eager.eager = true)
    (held : before.Holds index) :
    ∃ record, before.record index = .ok record ∧ eager.record index = .ok record := by
  obtain ⟨v, found⟩ := held
  obtain ⟨own, fact, record⟩ := charted.record_of_vertex? found
  obtain ⟨other, fact', record'⟩ := complete.record_of_lt isEager (charted.range index v found)
  rw [fact.functional fact'] at record
  exact ⟨_, record, record'⟩

theorem Charted.agrees (charted : before.Charted numbering (numbering.Noted note noteOf))
    (lazy : before.eager = false) (shaped : start.Shaped numbering) (lazy' : start.eager = false)
    (complete : eager.Charted numbering (numbering.Noted note noteOf))
    (isEager : eager.eager = true) : before.Agrees start eager := by
  obtain ⟨stageOf, symbols, indexOf, successor⟩ := charted.shaped.answers_eq shaped lazy lazy'
  refine ⟨⟨_, charted.chart.root⟩, ?_, ?_, ?_, stageOf, symbols, indexOf, successor, ?_⟩
  · rintro index record predecessor ⟨v, found⟩ read extended
    obtain ⟨own, _, read'⟩ := charted.record_of_vertex? found
    rw [read] at read'
    cases read'
    induction index using numbering.extend_induction with
    | empty => cases extended
    | extend index symbol known _ =>
        rw [Numbering.history_extend known] at extended
        cases extended
        by_contra absent
        rw [charted.chart.closed _ symbol known (Charted.vertex?_of_absent absent)] at found
        cases found
  · intro index v found
    obtain ⟨own, _, held⟩ := charted.chart.entry index v found
    obtain ⟨record, read, read'⟩ := charted.record_eq complete isEager ⟨v, found⟩
    have value := Trie.value_of_held? held
    refine ⟨charted.index_eq found, _, value, ?_⟩
    have got : before.records.get? index = some ⟨numbering.history index, own⟩ := by
      rw [NumberedTrie.get?, found, Option.bind_some]
      exact congrArg Except.toOption value
    have same : before.record index = .ok ⟨numbering.history index, own⟩ := by
      rw [HistorySpace.record, got]
    rw [read] at same
    cases same
    exact ⟨read, read'⟩
  · exact fun index noteOf held => charted.hold_of_holds held noteOf
  · rw [charted.shaped.total, shaped.total]

/-- What the request is asked for is what the eager space holds of the history that is extended. -/
theorem Request.asked_iff (complete : eager.Charted numbering (numbering.Noted note noteOf))
    (isEager : eager.eager = true) {predecessor : Nat} {symbol : Symbol c}
    (known : numbering.Known symbol) (inside : numbering.extend predecessor symbol < numbering.total)
    {held : ν} (fact : numbering.Noted note noteOf predecessor held) {answer : Except Fault ν} :
    request.Asked eager (numbering.extend predecessor symbol) answer ↔
      request.noteOf held predecessor symbol = answer := by
  have earlier := Nat.lt_trans (numbering.lt_extend predecessor symbol) inside
  obtain ⟨own, _, read⟩ := complete.record_of_lt isEager inside
  obtain ⟨other, fact', read'⟩ := complete.record_of_lt isEager earlier
  obtain rfl := fact.functional fact'
  rw [Numbering.history_extend known] at read
  constructor
  · rintro ⟨predecessor', last, length, own', record, whole, former, asked⟩
    rw [read] at whole
    cases whole
    rw [read'] at former
    cases former
    exact asked
  · rintro rfl
    exact ⟨_, _, _, _, _, read, read', rfl⟩

section Step

variable {after : HistorySpace c ν}
  (charted : before.Charted numbering (numbering.Noted note noteOf))
  (complete : eager.Charted numbering (numbering.Noted note noteOf)) (isEager : eager.eager = true)
include charted complete isEager

theorem Charted.serves_of_holds (held : before.Holds request.index) :
    before.Serves eager request (before.record request.index) before := by
  obtain ⟨record, read, read'⟩ := charted.record_eq complete isEager held
  have prefixes : ∀ index, before.Begins index request.index → before.Holds index := by
    intro index begins
    obtain ⟨v, found⟩ := held
    obtain ⟨word, short, rfl⟩ :=
      (charted.follows.begins_iff (charted.range _ v found)).mp begins
    exact charted.holds_of_prefix ⟨v, found⟩ short
  rw [read]
  constructor
  case kept => exact fun index v found => ⟨found, rfl⟩
  case made =>
    intro record' answered
    cases answered
    refine ⟨read', fun index => ⟨.inl, ?_⟩, fun index answer absent begins _ => ?_⟩
    · rintro (present | begins)
      · exact present
      · exact prefixes index begins
    · exact absurd (prefixes index begins) absent
  case refused =>
    intro fault failed
    cases failed

theorem Grown.keeps {word : List (Symbol c)}
    (grown : before.Grown after numbering (numbering.Noted note noteOf) request.noteOf 0 word)
    (index v : Nat) (found : before.records.vertex? index = some v) :
    after.records.vertex? index = some v ∧ after.record index = before.record index := by
  have found' := grown.kept index v found
  obtain ⟨record, read, complete'⟩ := charted.record_eq complete isEager ⟨v, found⟩
  obtain ⟨record', read', complete''⟩ := grown.charted.record_eq complete isEager ⟨v, found'⟩
  rw [complete'] at complete''
  cases complete''
  exact ⟨found', read'.trans read.symm⟩

theorem Charted.serves_of_grown (inside : request.index < numbering.total)
    (grown : before.Grown after numbering (numbering.Noted note noteOf) request.noteOf 0
      (numbering.word request.index)) :
    before.Serves eager request (after.record request.index) after := by
  have begins_iff : ∀ index, before.Begins index request.index ↔ _ := fun index =>
    charted.follows.begins_iff inside
  have reached : after.Holds request.index := by
    refine (grown.holds _).mpr (.inr ⟨_, List.prefix_rfl, ?_⟩)
    rw [← numbering.number_eq_foldl, numbering.number_word]
  obtain ⟨record, read, read'⟩ := grown.charted.record_eq complete isEager reached
  rw [read]
  constructor
  case kept => exact grown.keeps charted complete isEager
  case made =>
    intro record' answered
    cases answered
    refine ⟨read', fun index => ?_, fun index answer absent begins asked => ?_⟩
    · rw [grown.holds, begins_iff]
    · -- A record that is new on the way was granted when the walk came to its last symbol.
      obtain ⟨word, short, rfl⟩ := (begins_iff index).mp begins
      rcases List.eq_nil_or_concat word with rfl | ⟨former, symbol, rfl⟩
      · exact absurd ⟨_, charted.chart.root⟩ absent
      · rw [List.concat_eq_append] at short absent asked
        obtain ⟨held, next, fact, offered⟩ := grown.accepted former symbol short absent
        have early := Nat.lt_of_le_of_lt (Numbering.foldl_extend_le_of_prefix short) inside
        rw [List.foldl_append] at asked early
        rw [(Request.asked_iff complete isEager (Numbering.known_of_prefix short) early fact).mp
          asked] at offered
        exact ⟨next, offered⟩
  case refused =>
    intro fault failed
    cases failed

theorem Charted.serves_of_refused (inside : request.index < numbering.total)
    {former later : List (Symbol c)} {symbol : Symbol c} {held : ν} {fault : Fault}
    (split : numbering.word request.index = former ++ symbol :: later)
    (grown : before.Grown after numbering (numbering.Noted note noteOf) request.noteOf 0 former)
    (absent : ¬ after.Holds ((former ++ [symbol]).foldl numbering.extend 0))
    (fact : numbering.Noted note noteOf (former.foldl numbering.extend 0) held)
    (refused : request.noteOf held (former.foldl numbering.extend 0) symbol = .error fault) :
    before.Serves eager request (.error fault) after := by
  have short : former ++ [symbol] <+: numbering.word request.index := ⟨later, by simp [split]⟩
  have early := Nat.lt_of_le_of_lt (Numbering.foldl_extend_le_of_prefix short) inside
  have known := Numbering.known_of_prefix short
  constructor
  case kept => exact grown.keeps charted complete isEager
  case made =>
    intro record answered
    cases answered
  case refused =>
    intro fault' failed
    cases failed
    have spelled : numbering.word ((former ++ [symbol]).foldl numbering.extend 0) =
        former ++ [symbol] := by
      rw [← numbering.number_eq_foldl]
      exact Numbering.word_number fun other member =>
        numbering.word_proper request.index other (short.subset member)
    refine .inr ⟨_, (charted.follows.begins_iff inside).mpr ⟨_, short, rfl⟩, absent, ?_, ?_⟩
    · rw [List.foldl_append] at early ⊢
      exact (Request.asked_iff complete isEager known early fact).mpr refused
    · intro index
      rw [grown.holds, charted.follows.begins_iff early, spelled]
      -- What was granted are the prefixes of the refused history, short of itself.
      refine or_congr_right ⟨?_, ?_⟩
      · rintro ⟨word, shorter, rfl⟩
        refine ⟨⟨word, shorter.trans (List.prefix_append former [symbol]), rfl⟩, fun same => ?_⟩
        exact absent (same ▸ (grown.holds _).mpr (.inr ⟨word, shorter, rfl⟩))
      · rintro ⟨⟨word, shorter, rfl⟩, other⟩
        rcases List.prefix_concat_iff.mp shorter with rfl | shorter
        · exact absurd rfl other
        · exact ⟨word, shorter, rfl⟩

theorem Charted.serves (honest : request.Honest noteOf) :
    before.Serves eager request (before.hold request.index request.noteOf).1
      (before.hold request.index request.noteOf).2 := by
  by_cases held : before.Holds request.index
  · rw [charted.hold_of_holds held]
    exact charted.serves_of_holds complete isEager held
  · by_cases inside : request.index < numbering.total
    · obtain ⟨outcome, after, success, ends⟩ :=
        charted.hold_of_absent (honest.inherited numbering note) held inside
      rw [success]
      rcases ends with
        ⟨former, symbol, later, own, fault, split, rfl, grown, absent, fact, refused⟩ | ⟨rfl, grown⟩
      · exact charted.serves_of_refused complete isEager inside split grown absent fact refused
      · exact charted.serves_of_grown complete isEager inside grown
    · obtain ⟨cause, failed⟩ := charted.hold_of_beyond inside request.noteOf
      rw [failed]
      constructor
      case kept => exact fun index v found => ⟨found, rfl⟩
      case made =>
        intro record answered
        cases answered
      case refused =>
        intro fault _
        exact .inl ⟨by rw [charted.shaped.total]; omega, rfl⟩

end Step

/-- Requests keep a space in closed form charted, if they offer no wrong notes. -/
theorem Charted.holdAll_of_honest
    (charted : before.Charted numbering (numbering.Noted note noteOf)) (lazy : before.eager = false)
    (requests : List (Request c ν)) (honest : ∀ request ∈ requests, request.Honest noteOf) :
    (before.holdAll requests).Charted numbering (numbering.Noted note noteOf) ∧
      (before.holdAll requests).eager = false := by
  induction requests generalizing before with
  | nil => exact ⟨charted, lazy⟩
  | cons request requests ih =>
      obtain ⟨first, others⟩ := List.forall_mem_cons.mp honest
      obtain ⟨outcome, after, success, charted, same, _⟩ :=
        charted.hold (first.inherited numbering note) request.index
      have served : before.holdAll (request :: requests) = after.holdAll requests := by
        unfold HistorySpace.holdAll
        rw [List.foldl_cons, success]
      rw [served]
      exact ih charted (same.trans lazy) others

/-- Requests to a space in closed form, against the same histories in an eager space. -/
theorem agrees_serves (planned : 0 < numbering.horizon)
    (described : closedForm numbering.alphabet numbering.horizon note = .ok start)
    (enumerated : enumerate numbering.alphabet numbering.horizon note noteOf = .ok eager)
    (requests : List (Request c ν)) (honest : ∀ request ∈ requests, request.Honest noteOf) :
    (start.holdAll requests).Agrees start eager ∧
      ∀ request : Request c ν, request.Honest noteOf → (start.holdAll requests).Serves eager request
        ((start.holdAll requests).hold request.index request.noteOf).1
        ((start.holdAll requests).hold request.index request.noteOf).2 := by
  obtain ⟨made, created, lazy, charted⟩ :=
    Charted.closedForm numbering planned (numbering.Noted note noteOf) .empty
  rw [described] at created
  cases created
  obtain ⟨isEager, complete⟩ := charted_of_enumerate numbering planned enumerated
  obtain ⟨kept, stillLazy⟩ := charted.holdAll_of_honest lazy requests honest
  exact ⟨kept.agrees stillLazy charted.shaped lazy complete isEager,
    fun request honest => kept.serves complete isEager honest⟩

end Served

end HistorySpace

/-! ## Teams -/

namespace TeamSpace

def request (space : TeamSpace c) (index : Nat) : HistorySpace.Request c (List Nat) :=
  ⟨index, fun individual _ symbol =>
    extendIndividual space.agents space.alphabets individual symbol⟩

theorem holdAll_eq (space : TeamSpace c) (requests : List Nat) :
    space.holdAll requests = { space with team := space.team.holdAll (requests.map space.request) } := by
  induction requests generalizing space with
  | nil => rfl
  | cons index requests ih =>
      have step : space.holdAll (index :: requests) = (space.hold index).2.holdAll requests := rfl
      rw [step, ih]
      rfl

end TeamSpace

/-- Records made on demand agree with an eager space, whatever was asked for and refused before; a
team's records among them. -/
theorem holdAll_agrees {horizon : Nat} (planned : 1 ≤ horizon) :
    (∀ (ν : Type) (alphabet : Alphabet) (base : Nat) (note : ν)
        (noteOf : ν → Nat → Symbol c → ν) (start : HistorySpace c ν),
      c.base alphabet = .ok base → 1 ≤ base →
      HistorySpace.closedForm alphabet horizon note = .ok start →
      ∃ eager, HistorySpace.enumerate alphabet horizon note
          (fun held index symbol => .ok (noteOf held index symbol)) = .ok eager ∧
        ∀ requests : List (HistorySpace.Request c ν),
          (∀ request ∈ requests,
            request.Honest fun held index symbol => .ok (noteOf held index symbol)) →
          (start.holdAll requests).Agrees start eager ∧
            ∀ request : HistorySpace.Request c ν,
              (request.Honest fun held index symbol => .ok (noteOf held index symbol)) →
              (start.holdAll requests).Serves eager request
                ((start.holdAll requests).hold request.index request.noteOf).1
                ((start.holdAll requests).hold request.index request.noteOf).2) ∧
      ∀ (alphabets : List Alphabet) (joint : Alphabet) (base : Nat) (eagerIndividual : Bool)
          (space : TeamSpace c),
        Alphabet.joint alphabets = .ok joint → c.base joint = .ok base → 1 ≤ base →
        TeamSpace.create alphabets horizon eagerIndividual false = .ok space →
        ∃ eager, TeamSpace.create alphabets horizon eagerIndividual true = .ok eager ∧
          ∀ requests : List Nat,
            (space.holdAll requests).agents = space.agents ∧
              (space.holdAll requests).team.Agrees space.team eager.team ∧
                ∀ index, (space.holdAll requests).team.Serves eager.team
                  ((space.holdAll requests).request index) ((space.holdAll requests).hold index).1
                  ((space.holdAll requests).hold index).2.team := by
  constructor
  · intro ν alphabet base note noteOf start based inhabited described
    have created : HistorySpace.enumerate alphabet horizon note
        (fun held index symbol => .ok (noteOf held index symbol)) = .ok start ∨
          HistorySpace.closedForm alphabet horizon note = .ok start := .inr described
    obtain ⟨numbering, rfl, rfl⟩ := HistorySpace.exists_numbering based inhabited created
    obtain ⟨eager, enumerated, _⟩ :=
      (HistorySpace.enumerate_meets numbering planned note fun held index symbol =>
        .ok (noteOf held index symbol)).exists_eq_ok fun fault ⟨_, _, _, _, _, _, refused⟩ => by
          cases refused
    exact ⟨eager, enumerated, HistorySpace.agrees_serves planned described enumerated⟩
  · intro alphabets joint base eagerIndividual space joined based inhabited created
    obtain ⟨roster, rfl, rfl⟩ :=
      TeamSpace.exists_roster_of_joint_base joined based inhabited created
    obtain ⟨eager, created', _⟩ := TeamSpace.exists_create planned eagerIndividual true
    refine ⟨eager, created', fun requests => ?_⟩
    obtain ⟨same, seated, _, joined', teamed⟩ := TeamSpace.create_eq_ok_iff.mp created
    obtain ⟨_, seated', _, joined'', teamed'⟩ := TeamSpace.create_eq_ok_iff.mp created'
    cases joined'.symm.trans roster.joint
    cases joined''.symm.trans roster.joint
    have agents : space.agents = eager.agents := Except.ok.inj (seated.symm.trans seated')
    rcases teamed with ⟨lazy, _⟩ | ⟨_, described⟩
    · cases lazy
    rcases teamed' with ⟨_, enumerated⟩ | ⟨isEager, _⟩
    · rw [← agents, ← same] at enumerated
      have offered : ∀ request ∈ requests.map space.request,
          request.Honest fun individual _ symbol =>
            TeamSpace.extendIndividual space.agents space.alphabets individual symbol := by
        intro request member held index symbol
        obtain ⟨_, _, rfl⟩ := List.mem_map.mp member
        exact .inl rfl
      obtain ⟨agrees, serves⟩ :=
        HistorySpace.agrees_serves planned (same ▸ described) enumerated _ offered
      rw [TeamSpace.holdAll_eq]
      exact ⟨rfl, agrees, fun index => serves (space.request index) fun _ _ _ => .inl rfl⟩
    · cases isEager

/-- A request that refuses every note but those of single symbols. -/
def HistorySpace.Request.short : HistorySpace.Request .observation Unit :=
  ⟨5, fun _ index _ =>
    if index = 0 then .ok () else .error (.meaningless (.refused "too long"))⟩

/-- Asked for a history of two observations, but granted only the first, two records are held. Two
agents who see such observations hold two joint histories once asked for one. -/
theorem holdAll_agrees_short :
    1 ≤ 2 ∧ 1 ≤ 3 ∧ HistoryKind.base .observation ⟨1, 2⟩ = .ok 2 ∧
      Alphabet.joint [⟨1, 2⟩, ⟨1, 2⟩] = .ok ⟨1, 4⟩ ∧
      (∃ start eager : HistorySpace .observation Unit,
        HistorySpace.closedForm ⟨1, 2⟩ 3 () = .ok start ∧
          HistorySpace.enumerate ⟨1, 2⟩ 3 () (fun _ _ _ => .ok ()) = .ok eager ∧
          (start.holdAll [.short]).held = 2 ∧ (start.holdAll [.short]).Agrees start eager) ∧
      ∃ space eager : TeamSpace .observation,
        TeamSpace.create [⟨1, 2⟩, ⟨1, 2⟩] 2 false false = .ok space ∧
          TeamSpace.create [⟨1, 2⟩, ⟨1, 2⟩] 2 false true = .ok eager ∧
          (space.holdAll [3]).team.held = 2 ∧
          (space.holdAll [3]).team.Agrees space.team eager.team := by
  obtain ⟨start, described⟩ :
      ∃ start : HistorySpace .observation Unit,
        HistorySpace.closedForm ⟨1, 2⟩ 3 () = .ok start := ⟨_, rfl⟩
  obtain ⟨space, created⟩ :
      ∃ space : TeamSpace .observation,
        TeamSpace.create [⟨1, 2⟩, ⟨1, 2⟩] 2 false false = .ok space := ⟨_, rfl⟩
  have held : (HistorySpace.closedForm ⟨1, 2⟩ 3 ()).map
      (fun start => (start.holdAll [.short]).held) = .ok 2 := by decide +kernel
  have held' : (TeamSpace.create (c := .observation) [⟨1, 2⟩, ⟨1, 2⟩] 2 false false).map
      (fun space => (space.holdAll [3]).team.held) = .ok 2 := by decide +kernel
  rw [described] at held
  rw [created] at held'
  have based : HistoryKind.base .observation ⟨1, 2⟩ = .ok 2 := rfl
  have joined : Alphabet.joint [⟨1, 2⟩, ⟨1, 2⟩] = .ok ⟨1, 4⟩ := rfl
  have planned : 1 ≤ 2 := by decide
  have planned' : 1 ≤ 3 := by decide
  have honest : ∀ request ∈ [HistorySpace.Request.short],
      request.Honest fun _ _ _ => .ok () := by
    intro request member held index symbol
    cases List.mem_singleton.mp member
    by_cases first : index = 0
    · exact .inl (if_pos first)
    · exact .inr ⟨_, if_neg first⟩
  obtain ⟨eager, enumerated, requested⟩ :=
    (holdAll_agrees planned').1 Unit ⟨1, 2⟩ 2 () (fun _ _ _ => ()) start based planned described
  obtain ⟨eagerTeam, created', requested'⟩ :=
    (holdAll_agrees planned).2 [⟨1, 2⟩, ⟨1, 2⟩] ⟨1, 4⟩ 4 false space joined rfl (by decide) created
  exact ⟨planned, planned', based, joined,
    ⟨start, eager, described, enumerated, Except.ok.inj held, (requested [.short] honest).1⟩,
    space, eagerTeam, created, created', Except.ok.inj held', (requested' [3]).2.1⟩

end TeamPlanning
