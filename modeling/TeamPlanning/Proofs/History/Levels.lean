import Mathlib.Algebra.BigOperators.Intervals
import Mathlib.Data.List.Sort
import TeamPlanning.Proofs.History.Reading
import TeamPlanning.Proofs.Realization

/-! # Histories by stage

The histories of a stage are numbered consecutively, and those of the next stage extend them, one
history after the other, by every symbol. -/

set_option autoImplicit false

namespace TeamPlanning

open scoped BigOperators

namespace HistorySpace

variable {c : HistoryKind} {ν : Type}

/-- All histories of a stage. -/
def historiesAt (space : HistorySpace c ν) (stage : Nat) : List Nat :=
  (List.range space.total).filter fun index => (space.stageOf index).toOption == some stage

/-- The numbers that extend a number by one digit each. -/
def extensions (space : HistorySpace c ν) (index : Nat) : List Nat :=
  (List.range space.base).map fun digit => index * space.base + digit + 1

theorem word_extension (space : HistorySpace c ν) (index : Nat) {digit : Nat}
    (below : digit < space.base) :
    space.word (index * space.base + digit + 1) =
      space.word index ++ [Symbol.ofDigit c digit space.alphabet] := by
  rw [word, Shortlex.spell_extend below, List.map_append]
  rfl

namespace Reads

variable {space : HistorySpace c ν} {horizon : Nat} (reads : space.Reads horizon)
include reads

theorem mem_historiesAt_iff {stage index : Nat} :
    index ∈ space.historiesAt stage ↔
      index < space.total ∧ (space.word index).length = stage := by
  rw [historiesAt, List.mem_filter, List.mem_range, beq_iff_eq]
  refine and_congr_right fun inside => ?_
  have answers := reads.stageOf index
  rw [if_pos inside] at answers
  rw [answers]
  exact Option.some_inj

theorem length_word_lt_iff {index : Nat} (inside : index < space.total) (stage : Nat) :
    (space.word index).length < stage ↔ index < Shortlex.first space.base stage := by
  rw [word, List.length_map]
  cases base : space.base with
  | succ digits => exact Shortlex.length_spell_lt_iff (Nat.succ_pos digits) index stage
  | zero =>
      rw [reads.total, base] at inside
      -- Without digits only the empty word is left.
      cases horizon with
      | zero => cases inside
      | succ horizon =>
          rw [first_zero_base (Nat.succ_pos horizon)] at inside
          obtain rfl : index = 0 := by omega
          cases stage with
          | zero => simp [Shortlex.first]
          | succ stage => simp [Shortlex.first]

theorem historiesAt_eq {stage : Nat} (planned : stage < horizon) :
    space.historiesAt stage =
      List.range' (Shortlex.first space.base stage) (space.base ^ stage) := by
  have listed : (space.historiesAt stage).Pairwise (· < ·) :=
    List.pairwise_lt_range.filter _
  -- Both lists ascend, so their members decide.
  refine listed.eq_of_mem_iff List.pairwise_lt_range' fun index => ?_
  have ended := Shortlex.first_succ space.base stage
  have total := Shortlex.first_mono space.base (show stage + 1 ≤ horizon from planned)
  rw [← reads.total] at total
  rw [reads.mem_historiesAt_iff, List.mem_range'_1]
  constructor
  · intro given
    obtain ⟨inside, long⟩ := given
    have late := reads.length_word_lt_iff inside stage
    have early := (reads.length_word_lt_iff inside (stage + 1)).mp (by omega)
    omega
  · intro given
    have inside : index < space.total := by omega
    have late := reads.length_word_lt_iff inside stage
    have early := (reads.length_word_lt_iff inside (stage + 1)).mpr (by omega)
    exact ⟨inside, by omega⟩

theorem historiesAt_zero (planned : 0 < horizon) : space.historiesAt 0 = [0] :=
  reads.historiesAt_eq planned

theorem total_pos (planned : 0 < horizon) : 0 < space.total := by
  have member : 0 ∈ space.historiesAt 0 := by
    rw [reads.historiesAt_zero planned]
    exact List.mem_singleton_self 0
  exact (reads.mem_historiesAt_iff.mp member).1

theorem historiesAt_succ {stage : Nat} (planned : stage + 1 < horizon) :
    space.historiesAt (stage + 1) = (space.historiesAt stage).flatMap space.extensions := by
  rw [reads.historiesAt_eq planned, reads.historiesAt_eq (Nat.lt_of_succ_lt planned)]
  refine Eq.trans ?_ (Realization.flatMap_extensions space.base _ _).symm
  rw [Shortlex.first, Nat.pow_succ]

theorem extension_lt {stage index digit : Nat} (planned : stage + 1 < horizon)
    (member : index ∈ space.historiesAt stage) (below : digit < space.base) :
    index * space.base + digit + 1 < space.total := by
  have extended : index * space.base + digit + 1 ∈ space.historiesAt (stage + 1) := by
    rw [reads.historiesAt_succ planned, List.mem_flatMap]
    exact ⟨index, member, List.mem_map_of_mem (List.mem_range.mpr below)⟩
  exact (reads.mem_historiesAt_iff.mp extended).1

end Reads

end HistorySpace

/-- Digits of pairs run through all actions, and for each through all observations. -/
theorem sum_range_pairs (actions observations : Nat) (term : Nat → Nat → Rat) :
    ∑ digit ∈ Finset.range (actions * observations),
        term (digit / observations) (digit % observations) =
      ∑ action ∈ Finset.range actions, ∑ observation ∈ Finset.range observations,
        term action observation := by
  induction actions with
  | zero => simp
  | succ actions ih =>
      rw [Nat.succ_mul, Finset.sum_range_add, ih, Finset.sum_range_succ]
      congr 1
      refine Finset.sum_congr rfl fun observation member => ?_
      have below := Finset.mem_range.mp member
      rw [Nat.mul_comm, Nat.mul_add_div (Nat.zero_lt_of_lt below), Nat.div_eq_of_lt below,
        Nat.add_zero, Nat.mul_add_mod, Nat.mod_eq_of_lt below]

end TeamPlanning
