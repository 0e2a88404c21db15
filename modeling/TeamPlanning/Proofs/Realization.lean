import TeamPlanning.Proofs.Shortlex
import TeamPlanning.Realization

/-! # Realizations by number

The realizations of all histories, in the order in which they are worked out, are those of the words
that the numbers from 0 on spell. -/

set_option autoImplicit false

namespace TeamPlanning.Realization

variable {W : Type} [Weight W] {process : DecisionProcess W} {event : Bool} {alphabet : Alphabet}
  {base : Nat} {start : Realization W}

/-- The realization that a word leads to, symbol by symbol. -/
def along (process : DecisionProcess W) (event : Bool) (start : Realization W)
    (word : List (Symbol .actionObservation)) : Realization W :=
  word.foldl (extend process event) start

theorem along_append (first second : List (Symbol .actionObservation)) :
    start.along process event (first ++ second) =
      (start.along process event first).along process event second :=
  List.foldl_append

/-- The realization of the history with a number. -/
def numbered (process : DecisionProcess W) (event : Bool) (alphabet : Alphabet) (base : Nat)
    (start : Realization W) (number : Nat) : Realization W :=
  start.along process event
    ((Shortlex.spell base number).map (Symbol.ofDigit .actionObservation · alphabet))

theorem numbered_extend {digit : Nat} (below : digit < base) (number : Nat) :
    numbered process event alphabet base start (number * base + digit + 1) =
      (numbered process event alphabet base start number).extend process event
        (.ofDigit .actionObservation digit alphabet) := by
  rw [numbered, Shortlex.spell_extend below, List.map_append, along_append]
  rfl

theorem flatMap_extensions (base size start : Nat) :
    (List.range' start size).flatMap (fun number =>
        (List.range base).map fun digit => number * base + digit + 1) =
      List.range' (start * base + 1) (size * base) := by
  induction size generalizing start with
  | zero => simp
  | succ size ih =>
      have own : (List.range base).map (fun digit => start * base + digit + 1) =
          List.range' (start * base + 1) base := by
        rw [List.range'_eq_map_range]
        exact List.map_congr_left fun digit _ => by omega
      have next : (start + 1) * base + 1 = start * base + 1 + 1 * base := by ring
      rw [List.range'_succ, List.flatMap_cons, own, ih, next, List.range'_append]
      congr 1
      ring

theorem extensions_of_level (stage : Nat) :
    ((List.range' (Shortlex.first base stage) (base ^ stage)).map
        (numbered process event alphabet base start)).flatMap
          (extensions process event alphabet base) =
      (List.range' (Shortlex.first base (stage + 1)) (base ^ (stage + 1))).map
        (numbered process event alphabet base start) := by
  have own : ∀ number,
      extensions process event alphabet base (numbered process event alphabet base start number) =
        ((List.range base).map fun digit => number * base + digit + 1).map
          (numbered process event alphabet base start) := by
    intro number
    rw [extensions, List.map_map]
    refine List.map_congr_left fun digit below => ?_
    exact (numbered_extend (List.mem_range.mp below) number).symm
  rw [List.flatMap_map, List.flatMap_congr fun number _ => own number, ← List.map_flatMap,
    flatMap_extensions, Shortlex.first, Nat.pow_succ]

/-- From a stage on, everything is worked out in the order of numbers. -/
theorem stages_from (stage further : Nat) :
    stages process event alphabet base further
        ((List.range' (Shortlex.first base stage) (base ^ stage)).map
          (numbered process event alphabet base start)) =
      (List.range' (Shortlex.first base stage)
        (Shortlex.first base (stage + 1 + further) - Shortlex.first base stage)).map
          (numbered process event alphabet base start) := by
  induction further generalizing stage with
  | zero =>
      rw [stages, Nat.add_zero, Shortlex.first_succ, Nat.add_sub_cancel_left]
  | succ further ih =>
      have reached := Shortlex.first_succ base stage
      have ahead := Shortlex.first_mono base (show stage + 1 ≤ stage + 1 + 1 + further by omega)
      have whole : Shortlex.first base (stage + 1 + (further + 1)) - Shortlex.first base stage =
          base ^ stage +
            (Shortlex.first base (stage + 1 + 1 + further) - Shortlex.first base (stage + 1)) := by
        rw [show stage + 1 + (further + 1) = stage + 1 + 1 + further by omega]
        omega
      rw [stages, extensions_of_level, ih, ← List.map_append, reached, whole]
      congr 1
      rw [reached]
      exact List.range'_append_1

theorem stages_eq {horizon : Nat} (planned : 1 ≤ horizon) :
    stages process event alphabet base (horizon - 1) [start] =
      (List.range (Shortlex.first base horizon)).map
        (numbered process event alphabet base start) := by
  have level : [start] = (List.range' (Shortlex.first base 0) (base ^ 0)).map
      (numbered process event alphabet base start) := by
    simp [numbered, along, Shortlex.first]
  rw [level, stages_from, List.range_eq_range']
  congr 2
  rw [show 0 + 1 + (horizon - 1) = horizon by omega]
  exact Nat.sub_zero _

end TeamPlanning.Realization
