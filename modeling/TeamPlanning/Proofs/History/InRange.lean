import TeamPlanning.Proofs.History.Trapping

/-! # Arithmetic that stays in range

What was checked when a space was built is enough for every question asked of it later. -/

set_option autoImplicit false

namespace TeamPlanning

open Trapping (Gives)

/-! ## Digits -/

namespace Radix.Trapping

theorem gives_split {radices : List Nat} (positive : ∀ radix ∈ radices, 0 < radix) (number : Nat) :
    Gives (split radices number) (.ok (Radix.split radices number)) := by
  induction radices with
  | nil => exact Trapping.gives_pure _
  | cons radix radices ih =>
      have own := positive radix List.mem_cons_self
      have rest := ih fun other member => positive other (List.mem_cons_of_mem radix member)
      refine rest.value_bind ?_
      refine (Trapping.gives_mod _ own).value_bind ?_
      exact (Trapping.gives_div _ own).value_bind (Trapping.gives_pure _)

theorem gives_decode (index : Nat) {length : Nat} (stored : length < capacity) (base : Nat) :
    Gives (decode index length base) (Radix.decode index length base) := by
  unfold decode Radix.decode
  split
  · exact Trapping.gives_throw _
  · rename_i filled
    have positive : ∀ radix ∈ List.replicate length base, 0 < radix := by
      intro radix member
      obtain ⟨long, rfl⟩ := List.mem_replicate.mp member
      omega
    rw [bind_of_eq_ok (Machine.reserve_of_lt stored)]
    refine (Trapping.gives_reserve stored).value_bind ?_
    refine (gives_split positive index).value_bind ?_
    dsimp only
    split
    · exact Trapping.gives_pure _
    · exact Trapping.gives_throw _

theorem gives_toIndividual (joint : Nat) (sizes : List Nat) :
    Gives (toIndividual joint sizes) (Radix.toIndividual joint sizes) := by
  unfold toIndividual Radix.toIndividual
  split
  · exact Trapping.gives_throw _
  · rename_i filled
    have positive : ∀ size ∈ sizes, 0 < size := fun size member =>
      Nat.pos_of_ne_zero fun empty => filled (empty ▸ member)
    refine (gives_split positive joint).value_bind ?_
    dsimp only
    split
    · exact Trapping.gives_pure _
    · exact Trapping.gives_throw _

end Radix.Trapping

theorem Radix.neverExceeds_toIndividual (joint : Nat) (sizes : List Nat) :
    NeverExceeds (Radix.toIndividual joint sizes) := by
  unfold toIndividual
  split
  · exact neverExceeds_missing _
  · dsimp only
    split
    · exact neverExceeds_of_eq_ok rfl
    · exact neverExceeds_missing _

namespace Symbol.Trapping

variable {c : HistoryKind} {alphabet : Alphabet} {base : Nat}

theorem gives_digit (based : c.base alphabet = .ok base) {symbol : Symbol c}
    (within : symbol.within alphabet = true) :
    Gives (digit symbol alphabet) (.ok (symbol.digit alphabet)) := by
  cases symbol with
  | observation o => exact Trapping.gives_pure o
  | action a => exact Trapping.gives_pure a
  | actionObservation a o =>
      obtain ⟨fits, _⟩ := Bounded.mul_eq_ok_iff.mp based
      simp only [Symbol.within, Bool.and_eq_true, decide_eq_true_eq] at within
      have below := mul_add_lt within.1 within.2
      refine (Trapping.gives_mul (by omega)).value_bind (Trapping.gives_add ?_)
      rw [Word.mul_of_lt (by omega)]
      omega

theorem gives_validDigit (based : c.base alphabet = .ok base) (symbol : Symbol c) :
    Gives (validDigit symbol alphabet) (symbol.validDigit alphabet) := by
  unfold validDigit Symbol.validDigit
  split
  · rename_i within
    exact gives_digit based within
  · exact Trapping.gives_throw _

theorem gives_ofDigit (based : c.base alphabet = .ok base) {digit : Nat} (below : digit < base) :
    Gives (ofDigit c digit alphabet) (.ok (Symbol.ofDigit c digit alphabet)) := by
  cases c with
  | observation => exact Trapping.gives_pure _
  | action => exact Trapping.gives_pure _
  | actionObservation =>
      obtain ⟨_, rfl⟩ := Bounded.mul_eq_ok_iff.mp based
      have positive : 0 < alphabet.observations :=
        Nat.pos_of_ne_zero fun zero => by simp [zero] at below
      refine (Trapping.gives_div _ positive).value_bind ?_
      exact (Trapping.gives_mod _ positive).value_bind (Trapping.gives_pure _)

theorem gives_parts (symbol : Symbol c) (agents : List Alphabet) :
    Gives (parts symbol agents) (symbol.parts agents) := by
  cases symbol with
  | observation o =>
      exact (Radix.Trapping.gives_toIndividual _ _).bind fun _ _ => Trapping.gives_pure _
  | action a =>
      exact (Radix.Trapping.gives_toIndividual _ _).bind fun _ _ => Trapping.gives_pure _
  | actionObservation a o =>
      refine (Radix.Trapping.gives_toIndividual _ _).bind fun _ _ => ?_
      exact (Radix.Trapping.gives_toIndividual _ _).bind fun _ _ => Trapping.gives_pure _

theorem neverExceeds_parts (symbol : Symbol c) (agents : List Alphabet) :
    NeverExceeds (symbol.parts agents) := by
  cases symbol with
  | observation o =>
      exact (Radix.neverExceeds_toIndividual _ _).bind fun _ _ => neverExceeds_of_eq_ok rfl
  | action a =>
      exact (Radix.neverExceeds_toIndividual _ _).bind fun _ _ => neverExceeds_of_eq_ok rfl
  | actionObservation a o =>
      refine (Radix.neverExceeds_toIndividual _ _).bind fun _ _ => ?_
      exact (Radix.neverExceeds_toIndividual _ _).bind fun _ _ => neverExceeds_of_eq_ok rfl

theorem safe_parts (symbol : Symbol c) (agents : List Alphabet) :
    Trapping.Safe (parts symbol agents) (symbol.parts agents) :=
  ⟨gives_parts symbol agents, neverExceeds_parts symbol agents⟩

end Symbol.Trapping

/-! ## Stages -/

namespace StageLayout.Trapping

variable {base horizon : Nat} (fits : Shortlex.first base horizon < wordBound)
include fits

theorem gives_total : Gives (total (closed base horizon)) (.ok (closed base horizon).total) := by
  cases horizon with
  | zero => exact Trapping.gives_pure 0
  | succ last =>
      rw [Shortlex.first_succ] at fits
      have back : (closed base (last + 1)).starts.back? = some (Shortlex.first base last) := by
        simp [closed_succ]
      have back' : (closed base (last + 1)).sizes.back? = some (base ^ last) := by
        simp [closed_succ]
      rw [total, StageLayout.total, back, back']
      exact Trapping.gives_add fits

theorem gives_stageOf (index : Nat) :
    Gives (stageOf (closed base horizon) index) ((closed base horizon).stageOf index) := by
  refine (gives_total fits).value_bind ?_
  rw [StageLayout.stageOf]
  split
  · rename_i inside
    rw [total_closed fits] at inside
    obtain ⟨stage, below, reached, ended⟩ := exists_covering rfl inside
    have early := stage_le_first reached ended
    have counted : Shortlex.first base (stage + 1) ≤ Shortlex.first base horizon :=
      Shortlex.first_mono base below
    rw [closed_eq_startingAt, boundary_startingAt (rising_first base) below reached ended]
    exact Trapping.gives_sub (by omega) (Nat.le_add_left 1 stage)
  · exact Trapping.gives_throw _

end StageLayout.Trapping

theorem StageLayout.neverExceeds_sizeAt (layout : StageLayout) (stage : Nat) :
    NeverExceeds (layout.sizeAt stage) := by
  unfold sizeAt
  split
  · exact neverExceeds_of_eq_ok rfl
  · exact neverExceeds_missing _

theorem StageLayout.neverExceeds_startAt (layout : StageLayout) (stage : Nat) :
    NeverExceeds (layout.startAt stage) := by
  unfold startAt
  split
  · exact neverExceeds_of_eq_ok rfl
  · exact neverExceeds_missing _

/-! ## Histories -/

theorem Trie.Trapping.gives_getOrInsert {α : Type} {trie : Trie α} {v : Nat} {letter : Letter}
    {make : α → Trapping (α × Nat)} {make' : α → Except Fault (α × Nat)}
    (each : ∀ value, trie.value v = .ok value → Gives (make value) (make' value)) :
    Gives (getOrInsert trie v letter make) (trie.getOrInsert v letter make') := by
  rw [getOrInsert, Trie.getOrInsert]
  cases trie.successor v letter with
  | ok child => exact Trapping.gives_pure _
  | error _ =>
      refine (Trapping.gives_lift _).bind fun value held => ?_
      refine (each value held).bind fun made _ => ?_
      refine (Trapping.gives_lift _).bind fun inserted _ => ?_
      exact (Trapping.gives_lift _).bind fun _ _ => Trapping.gives_pure _

namespace HistorySpace

variable {c : HistoryKind} {ν : Type} {space : HistorySpace c ν} {horizon : Nat}

theorem neverExceeds_record (space : HistorySpace c ν) (index : Nat) :
    NeverExceeds (space.record index) := by
  unfold HistorySpace.record
  split
  · exact neverExceeds_of_eq_ok rfl
  · split
    · exact neverExceeds_missing _
    · intro fault failed
      cases failed
      exact ⟨nofun, nofun⟩

/-- What was checked when the space was built, and what reading it relies on. -/
structure Guarded (space : HistorySpace c ν) (horizon : Nat) : Prop where
  reads : space.Reads horizon
  layout : space.layout = StageLayout.closed space.base horizon
  fits : Shortlex.first space.base horizon < wordBound
  stored : horizon < capacity
  indexOf : ∀ word, NeverExceeds (space.indexOf word)

namespace Guarded

variable (guarded : space.Guarded horizon)
include guarded

theorem gives_total : Gives (Trapping.total space) (.ok space.total) := by
  rw [Trapping.total, HistorySpace.total, guarded.layout]
  exact StageLayout.Trapping.gives_total guarded.fits

theorem gives_layout_stageOf (index : Nat) :
    Gives (StageLayout.Trapping.stageOf space.layout index) (space.layout.stageOf index) := by
  rw [guarded.layout]
  exact StageLayout.Trapping.gives_stageOf guarded.fits index

theorem gives_record (index : Nat) :
    Gives (Trapping.record space index) (space.record index) := by
  cases held : space.records.get? index with
  | some record =>
      rw [Trapping.record, HistorySpace.record, held]
      exact Trapping.gives_pure record
  | none =>
      rw [Trapping.record, HistorySpace.record, held]
      refine guarded.gives_total.value_bind ?_
      dsimp only
      split
      · exact Trapping.gives_throw _
      · exact Trapping.gives_throw _

theorem gives_stageOf (index : Nat) :
    Gives (Trapping.stageOf space index) (space.stageOf index) := by
  unfold Trapping.stageOf HistorySpace.stageOf
  split
  · exact (guarded.gives_record index).bind fun _ _ => Trapping.gives_pure _
  · exact guarded.gives_layout_stageOf index

/-- A stage begins at or before its histories, and is not too late to be counted on. -/
theorem covers {index stage : Nat} (staged : space.stageOf index = .ok stage) :
    index < space.total ∧ stage < horizon ∧ Shortlex.first space.base stage ≤ index ∧
      stage + 1 < wordBound := by
  obtain ⟨inside, rfl⟩ := guarded.reads.stageOf_eq_ok_iff.mp staged
  have total := guarded.reads.total
  have fits := guarded.fits
  have position := Shortlex.length_spell_lt_iff_of_lt (total ▸ inside)
  have length : (space.word index).length = (Shortlex.spell space.base index).length := by
    rw [word, List.length_map]
  have ended := (position ((space.word index).length + 1)).mp (by omega)
  have reached := (position (space.word index).length).not.mp (by omega)
  have early := StageLayout.stage_le_first (Nat.le_of_not_lt reached) ended
  exact ⟨inside, (guarded.reads.proper index inside).2, Nat.le_of_not_lt reached, by omega⟩

theorem gives_wordOf (index : Nat) : Gives (Trapping.wordOf space index) (space.wordOf index) := by
  refine (guarded.gives_layout_stageOf index).bind fun stage staged => ?_
  rw [guarded.layout] at staged
  obtain ⟨below, reached, ended⟩ :=
    (StageLayout.stageOf_closed_eq_ok_iff guarded.fits).mp staged
  have counted : Shortlex.first space.base (stage + 1) ≤ Shortlex.first space.base horizon :=
    Shortlex.first_mono _ below
  have fits := guarded.fits
  refine (Trapping.gives_lift _).bind fun start started => ?_
  rw [guarded.layout, StageLayout.startAt_closed below] at started
  cases started
  refine (Trapping.gives_sub (by omega) reached).value_bind ?_
  have room : stage < capacity := below.trans guarded.stored
  refine (Radix.Trapping.gives_decode _ room _).bind fun digits decoded => ?_
  obtain ⟨_, _, digits_below, _⟩ := Radix.decode_eq_ok_iff.mp decoded
  have spelled : Gives (digits.mapM (Symbol.Trapping.ofDigit c · space.alphabet))
      (digits.mapM fun digit => .ok (Symbol.ofDigit c digit space.alphabet)) :=
    Trapping.Gives.mapM fun digit member =>
      Symbol.Trapping.gives_ofDigit guarded.reads.based (digits_below digit member)
  rwa [mapM_eq_ok_map fun _ _ => rfl] at spelled

theorem gives_successorNumber {index stage digit : Nat} (small : index < wordBound)
    (reached : Shortlex.first space.base stage ≤ index) (early : stage + 1 < wordBound) :
    Gives (Trapping.successorNumber space index stage digit)
      (space.successorNumber index stage digit) := by
  refine (Trapping.gives_lift _).bind fun here started => ?_
  rw [guarded.layout] at started
  have inside : stage < horizon := by
    by_contra beyond
    obtain ⟨cause, failed⟩ :=
      StageLayout.startAt_closed_beyond space.base (Nat.le_of_not_lt beyond)
    rw [failed] at started
    cases started
  rw [StageLayout.startAt_closed inside] at started
  cases started
  refine (Trapping.gives_add early).value_bind ?_
  rw [Word.add_of_lt early]
  refine (Trapping.gives_lift _).bind fun next _ => ?_
  refine (Trapping.gives_sub small reached).value_bind ?_
  refine (Trapping.gives_lift _).bind fun shifted _ => ?_
  exact (Trapping.gives_lift _).bind fun extended _ => Trapping.gives_lift _

theorem gives_successor (index : Nat) (symbol : Symbol c) :
    Gives (Trapping.successor space index symbol) (space.successor index symbol) := by
  refine (Symbol.Trapping.gives_validDigit guarded.reads.based symbol).bind fun digit _ => ?_
  refine (guarded.gives_stageOf index).bind fun stage staged => ?_
  obtain ⟨inside, below, reached, early⟩ := guarded.covers staged
  have small : index < wordBound := by
    have total := guarded.reads.total
    have fits := guarded.fits
    omega
  refine (Trapping.gives_add early).value_bind ?_
  rw [Word.add_of_lt early]
  by_cases last : space.layout.stages ≤ stage + 1
  · simp only [if_pos last]
    exact (Trapping.gives_throw _).bind fun _ failed => by cases failed
  · simp only [if_neg last]
    cases eager : space.eager with
    | false => exact guarded.gives_successorNumber small reached early
    | true =>
        cases space.records.vertex? index with
        | none => exact Trapping.gives_throw _
        | some v => exact (Trapping.gives_lift _).bind fun child _ => Trapping.gives_lift _

theorem gives_walkBack (steps : Nat) (record : Record c ν) :
    Gives (Trapping.walkBack space steps record) (space.walkBack steps record) := by
  induction steps generalizing record with
  | zero => exact Trapping.gives_pure []
  | succ steps ih =>
      obtain ⟨history, note⟩ := record
      cases history with
      | empty => exact Trapping.gives_pure []
      | extension predecessor last before =>
          refine (guarded.gives_record predecessor).bind fun record _ => ?_
          exact (ih record).bind fun earlier _ => Trapping.gives_pure _

theorem gives_symbols (index : Nat) :
    Gives (Trapping.symbols space index) (space.symbols index) := by
  unfold Trapping.symbols HistorySpace.symbols
  split
  · refine (guarded.gives_record index).bind fun record _ => ?_
    exact (guarded.gives_walkBack _ record).bind fun word _ => Trapping.gives_pure _
  · exact guarded.gives_wordOf index

theorem gives_indexOf (word : List (Symbol c)) :
    Gives (Trapping.indexOf space word) (space.indexOf word) := by
  have digits : Gives (word.mapM (Symbol.Trapping.validDigit · space.alphabet))
      (word.mapM (·.validDigit space.alphabet)) :=
    Trapping.Gives.mapM fun symbol _ =>
      Symbol.Trapping.gives_validDigit guarded.reads.based symbol
  refine digits.bind fun digits _ => ?_
  split
  · exact (Trapping.gives_lift _).bind fun v _ => Trapping.gives_lift _
  · refine (Trapping.gives_lift _).bind fun start _ => ?_
    exact (Trapping.gives_lift _).bind fun number _ => Trapping.gives_lift _

theorem gives_answer {α : Type} (query : HistoryQuery c α) :
    Gives (Trapping.answer space query) (space.answer query) := by
  cases query with
  | count => exact guarded.gives_total
  | countAt stage => exact Trapping.gives_lift _
  | firstAt stage => exact Trapping.gives_lift _
  | stageOf index => exact guarded.gives_stageOf index
  | successor index symbol => exact guarded.gives_successor index symbol
  | symbols index => exact guarded.gives_symbols index
  | indexOf word => exact guarded.gives_indexOf word

/-! Nothing that is asked for is too large. -/

theorem neverExceeds_successor (index : Nat) (symbol : Symbol c) :
    NeverExceeds (space.successor index symbol) := by
  have reads := guarded.reads
  refine (symbol.validDigit_answers space.alphabet).neverExceeds.bind fun digit known => ?_
  refine (reads.stageOf index).neverExceeds.bind fun stage staged => ?_
  by_cases last : space.layout.stages ≤ stage + 1
  · simp only [if_pos last]
    exact neverExceeds_missing _
  · have within : symbol.within space.alphabet = true := by
      have answer := (symbol.validDigit_answers space.alphabet).eq_ok_iff.mp known
      by_contra foreign
      simp [foreign] at answer
    obtain ⟨inside, rfl⟩ := reads.stageOf_eq_ok_iff.mp staged
    obtain ⟨next, inside', extended⟩ :=
      reads.exists_extension inside within (by rw [reads.stages] at last; omega)
    have reached := reads.successor index next symbol inside' extended
    rw [HistorySpace.successor, bind_of_eq_ok known, bind_of_eq_ok staged] at reached
    exact neverExceeds_of_eq_ok reached

theorem neverExceeds_answer {α : Type} (query : HistoryQuery c α) :
    NeverExceeds (space.answer query) := by
  cases query with
  | count => exact neverExceeds_of_eq_ok rfl
  | countAt stage => exact StageLayout.neverExceeds_sizeAt space.layout stage
  | firstAt stage => exact StageLayout.neverExceeds_startAt space.layout stage
  | stageOf index => exact (guarded.reads.stageOf index).neverExceeds
  | successor index symbol => exact guarded.neverExceeds_successor index symbol
  | symbols index => exact (guarded.reads.symbols index).neverExceeds
  | indexOf word => exact guarded.indexOf word

theorem safe_record (index : Nat) :
    Trapping.Safe (Trapping.record space index) (space.record index) :=
  ⟨guarded.gives_record index, space.neverExceeds_record index⟩

theorem safe_answer {α : Type} (query : HistoryQuery c α) :
    Trapping.Safe (Trapping.answer space query) (space.answer query) :=
  ⟨guarded.gives_answer query, guarded.neverExceeds_answer query⟩

end Guarded

end HistorySpace

end TeamPlanning
