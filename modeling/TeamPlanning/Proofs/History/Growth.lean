import TeamPlanning.History.Hold
import TeamPlanning.Proofs.History.Records

/-! # Records on demand

Making records keeps a space charted, whether the request is answered or refused: every record made
on the way is filed where the numbering says, and a record that is there already is only passed. -/

set_option autoImplicit false

namespace TeamPlanning

variable {c : HistoryKind} {ν : Type}

theorem NumberedTrie.vertex?_remember {α : Type} (numbered : NumberedTrie α)
    {vertices : List (Nat × Nat)} (sparse : numbered.vertices = .sparse vertices) (index v : Nat) :
    (numbered.remember index v).vertex? = Function.update numbered.vertex? index (some v) := by
  funext other
  rw [NumberedTrie.remember, sparse]
  simp only [NumberedTrie.vertex?, sparse, Sparse.get?_insert, Function.update_apply, eq_comm]

theorem Numbering.le_foldl_extend (numbering : Numbering c) (index : Nat) (word : List (Symbol c)) :
    index ≤ word.foldl numbering.extend index := by
  induction word generalizing index with
  | nil => exact Nat.le_refl _
  | cons symbol word ih =>
      exact Nat.le_trans (Nat.le_of_lt (numbering.lt_extend index symbol)) (ih _)

/-- Shorter histories come first. -/
theorem Numbering.foldl_extend_le_of_prefix {numbering : Numbering c} {index : Nat}
    {word : List (Symbol c)} (short : word <+: numbering.word index) :
    word.foldl numbering.extend 0 ≤ index := by
  obtain ⟨rest, split⟩ := short
  have whole := numbering.number_word index
  rw [← split, numbering.number_eq_foldl, List.foldl_append] at whole
  rw [← whole]
  exact numbering.le_foldl_extend _ rest

theorem Numbering.known_of_prefix {numbering : Numbering c} {index : Nat}
    {word : List (Symbol c)} {symbol : Symbol c} (short : word ++ [symbol] <+: numbering.word index) :
    numbering.Known symbol :=
  numbering.word_proper index symbol (short.subset (List.mem_append_right word List.mem_cons_self))

/-- What is filed for the extension of a history: its record, with the note made for it, and its
number. -/
def Numbering.entry (numbering : Numbering c) (noteOf : ν → Nat → Symbol c → Except Fault ν)
    (current : Nat) (symbol : Symbol c) (record : Record c ν) : Except Fault (Record c ν × Nat) := do
  let note ← noteOf record.note current symbol
  return (record.extend current symbol note, numbering.extend current symbol)

namespace HistorySpace

/-- The record of the history is held. -/
def Holds (space : HistorySpace c ν) (index : Nat) : Prop :=
  ∃ v, space.records.vertex? index = some v

/-- The note of an extension is not refused. -/
def Accepted (noted : Nat → ν → Prop) (noteOf : ν → Nat → Symbol c → Except Fault ν)
    (current : Nat) (symbol : Symbol c) : Prop :=
  ∃ held next, noted current held ∧ noteOf held current symbol = .ok next

namespace Charted

variable {space : HistorySpace c ν} {numbering : Numbering c} {noted : Nat → ν → Prop}
  {noteOf : ν → Nat → Symbol c → Except Fault ν} {current v : Nat} {symbol : Symbol c}

/-- The successor of a history is found or made, unless its note is refused. -/
theorem getOrInsert_meets (charted : space.Charted numbering noted)
    (inherited : numbering.Inherited noted noteOf)
    (found : space.records.vertex? current = some v) (known : numbering.Known symbol) :
    Meets (space.trie.getOrInsert v symbol.letter (numbering.entry noteOf current symbol))
      (fun made => Chart numbering noted some made.2
          (Function.update space.records.vertex? (numbering.extend current symbol) (some made.1)) ∧
        (∀ w, space.records.vertex? (numbering.extend current symbol) = some w → w = made.1) ∧
        (¬ space.Holds (numbering.extend current symbol) → Accepted noted noteOf current symbol))
      (fun fault => ¬ space.Holds (numbering.extend current symbol) ∧
        ∃ note, noted current note ∧ noteOf note current symbol = .error fault) := by
  have step := charted.successor_answers found known
  cases next : space.records.vertex? (numbering.extend current symbol) with
  | some child =>
      rw [next] at step
      have same : Function.update space.records.vertex? (numbering.extend current symbol)
          (some child) = space.records.vertex? := by
        rw [← next, Function.update_eq_self]
      rw [Trie.getOrInsert_of_successor step]
      simp only [Meets, same]
      exact ⟨charted.chart, fun w found' => (Option.some.inj found').symm,
        fun absent => absurd ⟨child, next⟩ absent⟩
  | none =>
      rw [next] at step
      obtain ⟨cause, missing⟩ := step
      have absent : ¬ space.Holds (numbering.extend current symbol) := by
        rintro ⟨w, found'⟩
        rw [next] at found'
        cases found'
      obtain ⟨note, fact, held⟩ := charted.chart.entry current v found
      have value : space.trie.value v = .ok ⟨numbering.history current, note⟩ :=
        Trie.value_of_held? held
      cases answered : noteOf note current symbol with
      | error fault =>
          rw [Trie.getOrInsert_of_refused missing value (bind_of_eq_error answered _)]
          exact ⟨absent, note, fact, answered⟩
      | ok extended =>
          -- The new vertex is filed without a number first.
          have blank : Chart numbering noted
              (Function.update some (numbering.extend current symbol) none) space.trie
              space.records.vertex? := by
            refine charted.chart.congr_stamp fun other w taken => ?_
            rw [Function.update_of_ne]
            intro same
            subst same
            rw [next] at taken
            cases taken
          obtain ⟨child, trie, inserted, chart⟩ := blank.insert found known next
            (Function.update_self ..) (inherited current symbol note extended fact known answered)
          have filed : Function.update space.records.vertex? (numbering.extend current symbol)
              (some child) (numbering.extend current symbol) = some child :=
            Function.update_self ..
          obtain ⟨after, assigned, chart⟩ := chart.assign filed (Function.update_self ..)
          rw [Numbering.history_extend known] at inserted
          rw [Trie.getOrInsert_of_made missing value (bind_of_eq_ok answered _) inserted assigned]
          rw [Function.update_idem, Function.update_eq_self] at chart
          exact ⟨chart, fun w found' => (by cases found'),
            fun _ => ⟨note, extended, fact, answered⟩⟩

theorem remember (charted : space.Charted numbering noted) (lazy : space.eager = false)
    {trie : Trie (Record c ν)} {index child : Nat} (inside : index < numbering.total)
    (chart : Chart numbering noted some trie
      (Function.update space.records.vertex? index (some child))) :
    ({ space with records := { space.records with trie }.remember index child } :
      HistorySpace c ν).Charted numbering noted := by
  obtain ⟨vertices, sparse⟩ := charted.sparse lazy
  have spot : ({ space.records with trie }.remember index child : NumberedTrie _).vertex? =
      Function.update space.records.vertex? index (some child) :=
    NumberedTrie.vertex?_remember ⟨trie, space.records.vertices⟩ sparse index child
  have filed : ({ space.records with trie }.remember index child : NumberedTrie _).trie = trie := by
    rw [NumberedTrie.remember]
    simp only [sparse]
  refine ⟨⟨charted.shaped.alphabet, charted.shaped.base, charted.shaped.layout⟩, ?_, ?_, ?_, ?_⟩
  · rw [HistorySpace.trie, filed, spot]
    exact chart
  · intro other w taken
    rw [spot, Function.update_apply] at taken
    split at taken
    · rename_i here
      rw [here]
      exact inside
    · exact charted.range other w taken
  · intro eager
    rw [show space.eager = true from eager] at lazy
    cases lazy
  · intro _
    rw [NumberedTrie.remember]
    simp only [sparse]
    exact ⟨_, rfl⟩

/-- The next history is filed under its number, and the rest of the word is walked from there. -/
theorem holdAlong_eq_entry (charted : space.Charted numbering noted)
    (known : numbering.Known symbol) (inside : numbering.extend current symbol < numbering.total)
    (word : List (Symbol c)) :
    holdAlong noteOf (symbol :: word) (numbering.word current).length current v space =
      match space.trie.getOrInsert v symbol.letter (numbering.entry noteOf current symbol) with
      | .error fault => (.error fault, space)
      | .ok (child, trie) =>
          let records := { space.records with trie }.remember (numbering.extend current symbol) child
          holdAlong noteOf word (numbering.word (numbering.extend current symbol)).length
            (numbering.extend current symbol) child { space with records } := by
  have number := charted.shaped.successorNumber_eq known inside
  have filing : (fun record : Record c ν => noteOf record.note current symbol >>= fun note =>
      pure (record.extend current symbol note, numbering.extend current symbol)) =
        numbering.entry noteOf current symbol := rfl
  rw [Numbering.word_extend known, List.length_append, List.length_singleton, holdAlong,
    bind_of_eq_ok number, filing]
  cases space.trie.getOrInsert v symbol.letter (numbering.entry noteOf current symbol) with
  | error fault => rfl
  | ok child => rfl

/-- One step along a word: a note is refused and nothing changes, or one record more is held. -/
theorem holdAlong_cons (charted : space.Charted numbering noted) (lazy : space.eager = false)
    (inherited : numbering.Inherited noted noteOf)
    (found : space.records.vertex? current = some v) (known : numbering.Known symbol)
    (inside : numbering.extend current symbol < numbering.total) (word : List (Symbol c)) :
    (¬ space.Holds (numbering.extend current symbol) ∧ ∃ note fault, noted current note ∧
      noteOf note current symbol = .error fault ∧
      holdAlong noteOf (symbol :: word) (numbering.word current).length current v space =
        (.error fault, space)) ∨
      ∃ child longer, longer.Charted numbering noted ∧ longer.eager = false ∧
        longer.records.vertex? =
          Function.update space.records.vertex? (numbering.extend current symbol) (some child) ∧
        (∀ w, space.records.vertex? (numbering.extend current symbol) = some w → w = child) ∧
        (¬ space.Holds (numbering.extend current symbol) →
          Accepted noted noteOf current symbol) ∧
        holdAlong noteOf (symbol :: word) (numbering.word current).length current v space =
          holdAlong noteOf word (numbering.word (numbering.extend current symbol)).length
            (numbering.extend current symbol) child longer := by
  have made := charted.getOrInsert_meets inherited found known
  rw [charted.holdAlong_eq_entry known inside]
  cases filed : space.trie.getOrInsert v symbol.letter (numbering.entry noteOf current symbol) with
  | error fault =>
      rw [filed] at made
      obtain ⟨absent, note, fact, refused⟩ := made
      exact .inl ⟨absent, note, fault, fact, refused, rfl⟩
  | ok child =>
      rw [filed] at made
      obtain ⟨chart, same, accepted⟩ := made
      refine .inr ⟨child.1, _, charted.remember lazy inside chart, lazy, ?_, same, accepted, rfl⟩
      obtain ⟨vertices, sparse⟩ := charted.sparse lazy
      exact NumberedTrie.vertex?_remember ⟨child.2, space.records.vertices⟩ sparse _ _

end Charted

/-- The space after the records along a word were made, starting from the history `current`. -/
structure Grown (before after : HistorySpace c ν) (numbering : Numbering c)
    (noted : Nat → ν → Prop) (noteOf : ν → Nat → Symbol c → Except Fault ν) (current : Nat)
    (word : List (Symbol c)) : Prop where
  charted : after.Charted numbering noted
  lazy : after.eager = false
  kept : ∀ index v, before.records.vertex? index = some v → after.records.vertex? index = some v
  holds : ∀ index, after.Holds index ↔
    before.Holds index ∨ ∃ former, former <+: word ∧ former.foldl numbering.extend current = index
  accepted : ∀ former symbol, former ++ [symbol] <+: word →
    ¬ before.Holds ((former ++ [symbol]).foldl numbering.extend current) →
    Accepted noted noteOf (former.foldl numbering.extend current) symbol

namespace Grown

variable {before middle after : HistorySpace c ν} {numbering : Numbering c}
  {noted : Nat → ν → Prop} {noteOf : ν → Nat → Symbol c → Except Fault ν} {current v child : Nat}
  {symbol : Symbol c} {word : List (Symbol c)}

theorem refl (charted : before.Charted numbering noted) (lazy : before.eager = false)
    (found : before.records.vertex? current = some v) :
    before.Grown before numbering noted noteOf current [] := by
  refine ⟨charted, lazy, fun _ _ held => held, fun index => ⟨.inl, ?_⟩, ?_⟩
  · rintro (held | ⟨former, short, rfl⟩)
    · exact held
    · rw [List.prefix_nil.mp short]
      exact ⟨v, found⟩
  · intro former symbol short
    simp at short

theorem cons (grown : middle.Grown after numbering noted noteOf
      (numbering.extend current symbol) word)
    (found : before.records.vertex? current = some v)
    (spots : middle.records.vertex? =
      Function.update before.records.vertex? (numbering.extend current symbol) (some child))
    (same : ∀ w, before.records.vertex? (numbering.extend current symbol) = some w → w = child)
    (accepted : ¬ before.Holds (numbering.extend current symbol) →
      Accepted noted noteOf current symbol) :
    before.Grown after numbering noted noteOf current (symbol :: word) := by
  have held : ∀ index, middle.Holds index ↔
      before.Holds index ∨ index = numbering.extend current symbol := by
    intro index
    unfold Holds
    rw [spots, Function.update_apply]
    by_cases here : index = numbering.extend current symbol
    · simp [here]
    · simp [here]
  refine ⟨grown.charted, grown.lazy, fun index w held => grown.kept index w ?_,
    fun index => ?_, ?_⟩
  · rw [spots, Function.update_apply]
    by_cases here : index = numbering.extend current symbol
    · subst here
      rw [if_pos rfl, same w held]
    · rw [if_neg here, held]
  · rw [grown.holds, held]
    constructor
    · rintro ((earlier | rfl) | ⟨former, short, rfl⟩)
      · exact .inl earlier
      · exact .inr ⟨[symbol], by simp, rfl⟩
      · exact .inr ⟨symbol :: former, List.cons_prefix_cons.mpr ⟨rfl, short⟩, rfl⟩
    · rintro (earlier | ⟨former, short, rfl⟩)
      · exact .inl (.inl earlier)
      · rcases List.prefix_cons_iff.mp short with rfl | ⟨rest, rfl, shorter⟩
        · exact .inl (.inl ⟨v, found⟩)
        · exact .inr ⟨rest, shorter, rfl⟩
  · intro former symbol' short absent
    cases former with
    | nil =>
        obtain ⟨rfl, _⟩ := List.cons_prefix_cons.mp short
        exact accepted absent
    | cons other former =>
        obtain ⟨rfl, shorter⟩ := List.cons_prefix_cons.mp short
        refine grown.accepted former symbol' shorter fun given => ?_
        rcases (held _).mp given with earlier | back
        · exact absent earlier
        · -- Numbers rise along a word, so it does not come back to its second history.
          have onward := numbering.le_foldl_extend (numbering.extend current other) former
          have further := numbering.lt_extend
            (former.foldl numbering.extend (numbering.extend current other)) symbol'
          rw [List.foldl_append] at back
          exact absurd back (Nat.ne_of_gt (Nat.lt_of_le_of_lt onward further))

end Grown

namespace Charted

variable {space : HistorySpace c ν} {numbering : Numbering c} {noted : Nat → ν → Prop}
  {noteOf : ν → Nat → Symbol c → Except Fault ν} {current v : Nat} {symbol : Symbol c}

/-- The note of a history along the word is refused, and the records before it are made; or all the
records along the word are made. -/
theorem holdAlong_cases (charted : space.Charted numbering noted) (lazy : space.eager = false)
    (inherited : numbering.Inherited noted noteOf)
    (found : space.records.vertex? current = some v) {word : List (Symbol c)}
    (proper : numbering.Proper word)
    (inside : word.foldl numbering.extend current < numbering.total) :
    ∃ outcome longer,
      holdAlong noteOf word (numbering.word current).length current v space = (outcome, longer) ∧
        ((∃ former symbol later note fault, word = former ++ symbol :: later ∧
            outcome = .error fault ∧ space.Grown longer numbering noted noteOf current former ∧
            ¬ longer.Holds ((former ++ [symbol]).foldl numbering.extend current) ∧
            noted (former.foldl numbering.extend current) note ∧
            noteOf note (former.foldl numbering.extend current) symbol = .error fault) ∨
          outcome = .ok () ∧ space.Grown longer numbering noted noteOf current word) := by
  induction word generalizing space current v with
  | nil => exact ⟨_, _, rfl, .inr ⟨rfl, .refl charted lazy found⟩⟩
  | cons symbol word ih =>
      obtain ⟨known, proper⟩ := List.forall_mem_cons.mp proper
      have next : numbering.extend current symbol < numbering.total :=
        Nat.lt_of_le_of_lt (numbering.le_foldl_extend _ word) inside
      rcases charted.holdAlong_cons lazy inherited found known next word with
        ⟨absent, note, fault, fact, refused, stopped⟩ |
          ⟨child, middle, middleCharted, middleLazy, spots, same, accepted, continued⟩
      · exact ⟨_, _, stopped, .inl ⟨[], symbol, word, note, fault, rfl, rfl,
          .refl charted lazy found, absent, fact, refused⟩⟩
      · rw [continued]
        obtain ⟨outcome, longer, walked, ends⟩ := ih middleCharted middleLazy
          (by rw [spots, Function.update_self]) proper inside
        refine ⟨outcome, longer, walked, ?_⟩
        rcases ends with
          ⟨former, symbol', later, note, fault, rfl, failed, grown, absent, fact, refused⟩ |
            ⟨succeeded, grown⟩
        · exact .inl ⟨symbol :: former, symbol', later, note, fault, rfl, failed,
            grown.cons found spots same accepted, absent, fact, refused⟩
        · exact .inr ⟨succeeded, grown.cons found spots same accepted⟩

/-- A record that is held is looked up, and nobody is asked for a note. -/
theorem hold_of_holds (charted : space.Charted numbering noted) {index : Nat}
    (held : space.Holds index) (noteOf : ν → Nat → Symbol c → Except Fault ν) :
    space.hold index noteOf = (space.record index, space) := by
  obtain ⟨v, found⟩ := held
  obtain ⟨note, _, present⟩ := charted.get?_of_vertex? found
  rw [HistorySpace.hold, present]
  rfl

theorem vertex?_of_absent {index : Nat} (absent : ¬ space.Holds index) :
    space.records.vertex? index = none := by
  cases found : space.records.vertex? index with
  | none => rfl
  | some v => exact absurd ⟨v, found⟩ absent

theorem get?_of_absent {index : Nat} (absent : ¬ space.Holds index) :
    space.records.get? index = none := by
  rw [NumberedTrie.get?, vertex?_of_absent absent]
  rfl

/-- Nothing is made of a number that no history has. -/
theorem hold_of_beyond (charted : space.Charted numbering noted) {index : Nat}
    (beyond : ¬ index < numbering.total) (noteOf : ν → Nat → Symbol c → Except Fault ν) :
    ∃ cause, space.hold index noteOf = (.error (.missing cause), space) := by
  have absent : ¬ space.Holds index := by
    rintro ⟨v, found⟩
    exact beyond (charted.range index v found)
  have read := charted.shaped.wordOf_answers index
  rw [Numbering.word?_of_not_lt beyond] at read
  obtain ⟨cause, failed⟩ := read
  refine ⟨cause, ?_⟩
  rw [HistorySpace.hold, get?_of_absent absent, failed]
  rfl

/-- A record that is not held is made with those on the way to it, as far as no note is refused. -/
theorem hold_of_absent (charted : space.Charted numbering noted)
    (inherited : numbering.Inherited noted noteOf) {index : Nat} (absent : ¬ space.Holds index)
    (inside : index < numbering.total) :
    ∃ outcome longer, space.hold index noteOf = (outcome, longer) ∧
      ((∃ former symbol later note fault, numbering.word index = former ++ symbol :: later ∧
          outcome = .error fault ∧ space.Grown longer numbering noted noteOf 0 former ∧
          ¬ longer.Holds ((former ++ [symbol]).foldl numbering.extend 0) ∧
          noted (former.foldl numbering.extend 0) note ∧
          noteOf note (former.foldl numbering.extend 0) symbol = .error fault) ∨
        outcome = longer.record index ∧
          space.Grown longer numbering noted noteOf 0 (numbering.word index)) := by
  have lazy := charted.lazy_of_absent (vertex?_of_absent absent) inside
  have read := charted.shaped.wordOf_answers index
  rw [Numbering.word?_of_lt inside] at read
  have whole := numbering.number_word index
  rw [numbering.number_eq_foldl] at whole
  obtain ⟨outcome, longer, walked, ends⟩ :=
    charted.holdAlong_cases lazy inherited charted.chart.root (numbering.word_proper index)
      (by rw [whole]; exact inside)
  rw [Numbering.word_zero, List.length_nil] at walked
  rw [HistorySpace.hold, get?_of_absent absent,
    show space.wordOf index = .ok (numbering.word index) from read]
  simp only [Option.isSome_none, Bool.false_eq_true, ↓reduceIte, walked]
  rcases ends with ⟨former, symbol, later, note, fault, split, rfl, refused⟩ | ⟨rfl, grown⟩
  · exact ⟨_, _, rfl, .inl ⟨former, symbol, later, note, fault, split, rfl, refused⟩⟩
  · exact ⟨_, _, rfl, .inr ⟨rfl, grown⟩⟩

/-- Whatever becomes of the request, the space stays charted. A record that is answered is the one
that the numbering describes. -/
theorem hold (charted : space.Charted numbering noted)
    (inherited : numbering.Inherited noted noteOf) (index : Nat) :
    ∃ outcome longer, space.hold index noteOf = (outcome, longer) ∧
      longer.Charted numbering noted ∧ longer.eager = space.eager ∧
        Meets outcome
          (fun record => ∃ note, noted index note ∧ record = ⟨numbering.history index, note⟩)
          (fun fault => numbering.Refused noted noteOf fault ∨
            ¬ index < numbering.total ∧ ∃ cause, fault = .missing cause) := by
  have answered : ∀ space : HistorySpace c ν, space.Charted numbering noted → space.Holds index →
      Meets (space.record index)
        (fun record => ∃ note, noted index note ∧ record = ⟨numbering.history index, note⟩)
        (fun fault => numbering.Refused noted noteOf fault ∨
          ¬ index < numbering.total ∧ ∃ cause, fault = .missing cause) := by
    rintro space charted ⟨v, found⟩
    obtain ⟨note, fact, record⟩ := charted.record_of_vertex? found
    rw [record]
    exact ⟨note, fact, rfl⟩
  by_cases held : space.Holds index
  · exact ⟨_, _, charted.hold_of_holds held noteOf, charted, rfl, answered space charted held⟩
  · by_cases inside : index < numbering.total
    · have lazy := charted.lazy_of_absent (vertex?_of_absent held) inside
      have whole := numbering.number_word index
      rw [numbering.number_eq_foldl] at whole
      obtain ⟨outcome, longer, success, ends⟩ := charted.hold_of_absent inherited held inside
      refine ⟨outcome, longer, success, ?_⟩
      rcases ends with
        ⟨former, symbol, later, note, fault, split, rfl, grown, _, fact, refused⟩ | ⟨rfl, grown⟩
      · have short : former ++ [symbol] <+: numbering.word index := ⟨later, by simp [split]⟩
        have early := Numbering.foldl_extend_le_of_prefix short
        rw [List.foldl_append] at early
        refine ⟨grown.charted, grown.lazy.trans lazy.symm, .inl ?_⟩
        exact ⟨_, symbol, note, fact, Numbering.known_of_prefix short,
          Nat.lt_of_le_of_lt early inside, refused⟩
      · refine ⟨grown.charted, grown.lazy.trans lazy.symm, answered longer grown.charted ?_⟩
        exact (grown.holds index).mpr (.inr ⟨_, List.prefix_rfl, whole⟩)
    · obtain ⟨cause, failed⟩ := charted.hold_of_beyond inside noteOf
      exact ⟨_, _, failed, charted, rfl, .inr ⟨inside, cause, rfl⟩⟩

end Charted

end HistorySpace

end TeamPlanning
