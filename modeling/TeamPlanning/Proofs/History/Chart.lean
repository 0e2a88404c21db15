import Mathlib.Logic.Function.Basic
import TeamPlanning.Proofs.History.Numbering
import TeamPlanning.Proofs.Trie.Insert

/-! # Trees that chart histories

A chart says at which vertex each history of a tree is filed. The vertices are found again along the
symbols, hold what the numbering says of their histories, and are closed under taking the
predecessor. Filing the extension of a charted history charts one history more. -/

set_option autoImplicit false

namespace TeamPlanning

variable {c : HistoryKind} {ν : Type}

theorem Symbol.isPair_letter (symbol : Symbol c) :
    symbol.letter.isPair = true ↔ c = .actionObservation := by
  cases symbol <;> simp [Symbol.letter, Letter.isPair]

/-- The note of a history, made from the note of its predecessor. -/
inductive Numbering.Noted (numbering : Numbering c) (note : ν)
    (noteOf : ν → Nat → Symbol c → Except Fault ν) : Nat → ν → Prop where
  | empty : Noted numbering note noteOf 0 note
  | extend {index : Nat} {symbol : Symbol c} {held next : ν} :
      Noted numbering note noteOf index held → numbering.Known symbol →
      noteOf held index symbol = .ok next →
      Noted numbering note noteOf (numbering.extend index symbol) next

/-- What is noted of a history follows from what is noted of its predecessor. -/
def Numbering.Inherited (numbering : Numbering c) (noted : Nat → ν → Prop)
    (noteOf : ν → Nat → Symbol c → Except Fault ν) : Prop :=
  ∀ index symbol held next, noted index held → numbering.Known symbol →
    noteOf held index symbol = .ok next → noted (numbering.extend index symbol) next

theorem Numbering.inherited_true (numbering : Numbering c)
    (noteOf : ν → Nat → Symbol c → Except Fault ν) :
    numbering.Inherited (fun _ _ => True) noteOf :=
  fun _ _ _ _ _ _ _ => trivial

theorem Numbering.Noted.of_inherited {numbering : Numbering c} {noted : Nat → ν → Prop} {note : ν}
    {noteOf : ν → Nat → Symbol c → Except Fault ν} (first : noted 0 note)
    (inherited : numbering.Inherited noted noteOf) {index : Nat} {held : ν}
    (made : numbering.Noted note noteOf index held) : noted index held := by
  induction made with
  | empty => exact first
  | extend _ known success ih => exact inherited _ _ _ _ ih known success

/-- A fault with which the note of a history in range is refused. -/
def Numbering.Refused (numbering : Numbering c) (noted : Nat → ν → Prop)
    (noteOf : ν → Nat → Symbol c → Except Fault ν) (fault : Fault) : Prop :=
  ∃ index symbol held, noted index held ∧ numbering.Known symbol ∧
    numbering.extend index symbol < numbering.total ∧ noteOf held index symbol = .error fault

theorem Numbering.Refused.imp {numbering : Numbering c} {noted noted' : Nat → ν → Prop}
    {noteOf : ν → Nat → Symbol c → Except Fault ν} {fault : Fault}
    (refused : numbering.Refused noted noteOf fault)
    (weaken : ∀ index note, noted index note → noted' index note) :
    numbering.Refused noted' noteOf fault := by
  obtain ⟨index, symbol, held, fact, rest⟩ := refused
  exact ⟨index, symbol, held, weaken index held fact, rest⟩

/-- `spot` finds the vertices of the histories that a tree holds. Their indices are `stamp`. -/
structure Chart (numbering : Numbering c) (noted : Nat → ν → Prop) (stamp : Nat → Option Nat)
    (trie : Trie (Record c ν)) (spot : Nat → Option Nat) : Prop where
  linked : trie.Linked
  forked : c = .actionObservation → trie.Forked
  root : spot 0 = some Trie.root
  injective : ∀ index index' v, spot index = some v → spot index' = some v → index = index'
  entry : ∀ index v, spot index = some v → ∃ note, noted index note ∧
    trie.held? v = some (.entry (stamp index) ⟨numbering.history index, note⟩)
  closed : ∀ index symbol, numbering.Known symbol → spot index = none →
    spot (numbering.extend index symbol) = none
  edge : ∀ index symbol v, spot index = some v → numbering.Known symbol →
    trie.step? v symbol.letter = spot (numbering.extend index symbol)

namespace Chart

variable {numbering : Numbering c} {noted : Nat → ν → Prop} {stamp stamp' : Nat → Option Nat}
  {trie : Trie (Record c ν)} {spot : Nat → Option Nat} {index v : Nat} {symbol : Symbol c}

theorem isEntry (chart : Chart numbering noted stamp trie spot) (found : spot index = some v) :
    trie.IsEntry v := by
  obtain ⟨note, _, held⟩ := chart.entry index v found
  exact ⟨_, _, held⟩

/-- Only the indices of charted histories matter. -/
theorem congr_stamp (chart : Chart numbering noted stamp trie spot)
    (same : ∀ index v, spot index = some v → stamp index = stamp' index) :
    Chart numbering noted stamp' trie spot :=
  { chart with
    entry := fun index v found => by
      rw [← same index v found]
      exact chart.entry index v found }

theorem imp {noted' : Nat → ν → Prop} (chart : Chart numbering noted stamp trie spot)
    (weaken : ∀ index note, noted index note → noted' index note) :
    Chart numbering noted' stamp trie spot :=
  { chart with
    entry := fun index v found => by
      obtain ⟨note, fact, held⟩ := chart.entry index v found
      exact ⟨note, weaken index note fact, held⟩ }

theorem singleton (numbering : Numbering c) (note : ν) {noted : Nat → ν → Prop}
    (first : noted 0 note) :
    Chart numbering noted (fun _ => none) (Trie.singleton (Record.start note))
      (fun index => if index = 0 then some Trie.root else none) := by
  refine ⟨Trie.linked_singleton, ?_, rfl, ?_, ?_, ?_, ?_⟩
  · intro _ v key child _ found
    rw [Trie.child?_singleton] at found
    cases found
  · intro index index' v found found'
    simp only [Option.ite_none_right_eq_some] at found found'
    rw [found.1, found'.1]
  · intro index v found
    simp only [Option.ite_none_right_eq_some, Option.some.injEq] at found
    obtain ⟨rfl, rfl⟩ := found
    exact ⟨note, first,
      Trie.held?_of_node? (Trie.node?_singleton_eq_some_iff.mpr ⟨rfl, rfl⟩)⟩
  · intro index symbol _ _
    exact if_neg (Nat.succ_ne_zero _)
  · intro index symbol v _ _
    have later : numbering.extend index symbol ≠ 0 := Nat.succ_ne_zero _
    rw [if_neg later]
    cases symbol.letter <;> simp [Trie.step?, Trie.child?_singleton]

theorem insert (chart : Chart numbering noted stamp trie spot) (found : spot index = some v)
    (known : numbering.Known symbol) (absent : spot (numbering.extend index symbol) = none)
    (unnumbered : stamp (numbering.extend index symbol) = none) {note : ν}
    (note_eq : noted (numbering.extend index symbol) note) :
    ∃ child after, trie.insert v symbol.letter
        ⟨numbering.history (numbering.extend index symbol), note⟩ = .ok (child, after) ∧
      Chart numbering noted stamp after
        (Function.update spot (numbering.extend index symbol) (some child)) := by
  have nowhere : trie.step? v symbol.letter = none := by
    rw [chart.edge index symbol v found known, absent]
  have vacant : trie.Vacant v symbol.letter :=
    Trie.vacant_of_step? (chart.isEntry found)
      (fun pair => chart.forked (symbol.isPair_letter.mp pair)) nowhere
  obtain ⟨child, after, success, inserted⟩ := Trie.insert_eq_ok chart.linked (chart.isEntry found)
    vacant ⟨numbering.history (numbering.extend index symbol), note⟩
  have unused : ∀ other w, spot other = some w → w ≠ child := by
    intro other w taken same
    subst same
    obtain ⟨_, _, held⟩ := chart.isEntry taken
    rw [Trie.held?, inserted.fresh] at held
    cases held
  have positive : (0 : Nat) ≠ numbering.extend index symbol := Nat.succ_ne_zero _ |>.symm
  refine ⟨child, after, success, inserted.linked, ?_, ?_, ?_, ?_, ?_, ?_⟩
  · exact fun pairs => inserted.forked (symbol.isPair_letter.mpr pairs) (chart.forked pairs)
  · rw [Function.update_of_ne positive]
    exact chart.root
  · intro one other w taken taken'
    simp only [Function.update_apply] at taken taken'
    split at taken <;> split at taken'
    · rename_i first second
      rw [first, second]
    · exact absurd (Option.some.inj taken).symm (unused other w taken')
    · exact absurd (Option.some.inj taken').symm (unused one w taken)
    · exact chart.injective one other w taken taken'
  · intro other w taken
    simp only [Function.update_apply] at taken
    split at taken
    · rename_i new
      obtain rfl := Option.some.inj taken
      subst new
      exact ⟨note, note_eq, by rw [inserted.held, unnumbered]⟩
    · obtain ⟨held, noted, holds⟩ := chart.entry other w taken
      exact ⟨held, noted, inserted.kept w _ holds⟩
  · intro other symbol' known' missing
    simp only [Function.update_apply] at missing ⊢
    split at missing
    · cases missing
    · rw [if_neg]
      · exact chart.closed other symbol' known' missing
      · intro same
        obtain ⟨rfl, _⟩ := Numbering.extend_injective known' known same
        rw [found] at missing
        cases missing
  · intro other symbol' w taken known'
    have shape : symbol'.letter.isPair = symbol.letter.isPair := by
      rw [Bool.eq_iff_iff, symbol'.isPair_letter, symbol.isPair_letter]
    simp only [Function.update_apply] at taken ⊢
    split at taken
    · -- Nothing extends the new history yet.
      rename_i new
      obtain rfl := Option.some.inj taken
      subst new
      have apart : child ≠ v := (unused index v found).symm
      have further : numbering.extend (numbering.extend index symbol) symbol' ≠
          numbering.extend index symbol := (numbering.lt_extend _ symbol').ne'
      rw [inserted.step child _ (.inr rfl) shape, if_neg (fun both => apart both.1),
        if_neg further, Trie.step?_of_dead inserted.fresh]
      exact (chart.closed _ symbol' known' absent).symm
    · rw [inserted.step w _ (.inl (chart.isEntry taken)) shape,
        chart.edge other symbol' w taken known']
      by_cases here : other = index ∧ symbol' = symbol
      · obtain ⟨rfl, rfl⟩ := here
        obtain rfl : w = v := Option.some.inj (taken.symm.trans found)
        simp
      · have letters : ¬ (w = v ∧ symbol'.letter = symbol.letter) := by
          intro given
          obtain ⟨rfl, same⟩ := given
          exact here ⟨chart.injective other index w taken found, Symbol.letter_injective same⟩
        have numbers : numbering.extend other symbol' ≠ numbering.extend index symbol :=
          fun same => here (Numbering.extend_injective known' known same)
        rw [if_neg letters, if_neg numbers]

theorem assign (chart : Chart numbering noted stamp trie spot) (found : spot index = some v)
    (unnumbered : stamp index = none) :
    ∃ after, trie.assign v index = .ok after ∧
      Chart numbering noted (Function.update stamp index (some index)) after spot := by
  obtain ⟨note, noted, held⟩ := chart.entry index v found
  rw [unnumbered] at held
  obtain ⟨after, success, assigned⟩ := Trie.assign_eq_ok held index
  refine ⟨after, success, assigned.linked chart.linked,
    fun pairs => assigned.forked (chart.forked pairs), chart.root, chart.injective, ?_,
    chart.closed, ?_⟩
  · intro other w taken
    rw [assigned.held, Function.update_apply]
    by_cases here : other = index
    · subst here
      obtain rfl : w = v := Option.some.inj (taken.symm.trans found)
      exact ⟨note, noted, by simp⟩
    · have elsewhere : w ≠ v := by
        intro same
        subst same
        exact here (chart.injective other index w taken found)
      rw [if_neg elsewhere, if_neg here]
      exact chart.entry other w taken
  · intro other symbol w taken known
    rw [assigned.step]
    exact chart.edge other symbol w taken known

end Chart

end TeamPlanning
