import TeamPlanning.ProbabilityTable
import TeamPlanning.Proofs.Gathering
import TeamPlanning.Proofs.JointSymbols

/-! # Tables of probabilities

Every table that is made and written holds probabilities only, in the shape that it was made with,
and what it lists of a row is what it says of the cells. -/

set_option autoImplicit false

namespace TeamPlanning.ProbabilityTable

open scoped BigOperators

variable {table : ProbabilityTable Rat} {rows cols : Nat}

/-- The cells are probabilities. Those of a dense table can be counted, and the rows of a sparse one
are in order. -/
def Sound : ProbabilityTable Rat → Prop
  | .dense _ cells => cells.size < wordBound ∧ ∀ p ∈ cells, 0 ≤ p ∧ p ≤ 1
  | .sparse _ rows =>
      ∀ row ∈ rows, Sparse.Ascending row ∧ ∀ entry ∈ row, 0 ≤ entry.2 ∧ entry.2 ≤ 1

/-- The cells fill the shape, and no entry of a sparse row is outside of the columns. -/
def Shaped (rows cols : Nat) : ProbabilityTable Rat → Prop
  | .dense width cells => width = cols ∧ cells.size = rows * cols
  | .sparse width lines => width = cols ∧ lines.size = rows ∧
      ∀ line ∈ lines, ∀ entry ∈ line, entry.1 < cols

/-- A table of probabilities of the given shape. -/
structure Proper (rows cols : Nat) (table : ProbabilityTable Rat) : Prop where
  sound : table.Sound
  shaped : table.Shaped rows cols

theorem probability_zero : (0 : Rat) ≤ Weight.zero ∧ (Weight.zero : Rat) ≤ 1 :=
  ⟨le_refl 0, zero_le_one⟩

theorem isProbability_iff (p : Rat) : Weight.isProbability p = true ↔ 0 ≤ p ∧ p ≤ 1 := by
  simp [Weight.isProbability]

theorem create_proper {storage : Storage} (created : create storage rows cols = .ok table) :
    table.Proper rows cols := by
  cases storage with
  | dense =>
      obtain ⟨cells, counted, made⟩ := bind_eq_ok_iff.mp created
      obtain ⟨product, small⟩ := Bounded.prod_eq_ok counted
      cases made
      refine ⟨⟨by simpa using small, fun p member => ?_⟩, rfl, by simpa using product⟩
      obtain ⟨_, rfl⟩ := Array.mem_replicate.mp member
      exact probability_zero
  | sparse =>
      cases created
      refine ⟨fun line member => ?_, rfl, by simp, fun line member => ?_⟩
      · obtain ⟨_, rfl⟩ := Array.mem_replicate.mp member
        exact ⟨List.Pairwise.nil, by simp⟩
      · obtain ⟨_, rfl⟩ := Array.mem_replicate.mp member
        exact List.forall_mem_nil _

theorem forall_mem_modify {α : Type} {property : α → Prop} {items : Array α} {place : Nat}
    {change : α → α} (each : ∀ item ∈ items, property item)
    (changed : ∀ item, property item → property (change item)) :
    ∀ item ∈ items.modify place change, property item := by
  intro item member
  obtain ⟨other, inside, rfl⟩ := Array.mem_iff_getElem.mp member
  rw [Array.getElem_modify]
  rw [Array.size_modify] at inside
  split
  · exact changed _ (each _ (Array.getElem_mem inside))
  · exact each _ (Array.getElem_mem inside)

theorem put_within {W : Type} [Weight W] {line : List (Nat × W)} {col : Nat} (known : col < cols)
    (within : ∀ entry ∈ line, entry.1 < cols) (p : W) :
    ∀ entry ∈ if Weight.eq p Weight.zero then Sparse.erase line col else Sparse.insert line col p,
      entry.1 < cols := by
  intro entry member
  split at member
  · exact within entry (List.mem_of_mem_filter member)
  · rcases Sparse.mem_insert member with rfl | held
    · exact known
    · exact within entry held

theorem set_proper {row col : Nat} {p : Rat} {table' : ProbabilityTable Rat}
    (proper : table.Proper rows cols) (written : table.set row col p = .ok table') :
    table'.Proper rows cols := by
  unfold set at written
  split at written
  · cases written
  · rename_i inside
    split at written
    · cases written
    · rename_i probable
      have probable : 0 ≤ p ∧ p ≤ 1 := by
        rw [← isProbability_iff]
        simpa using probable
      cases table with
      | dense width cells =>
          obtain ⟨⟨small, each⟩, wide, filled⟩ := proper
          obtain ⟨place, _, written⟩ := bind_eq_ok_iff.mp written
          cases written
          refine ⟨⟨by simpa using small, fun other member => ?_⟩, wide, by simpa using filled⟩
          rcases Array.mem_or_eq_of_mem_setIfInBounds member with held | rfl
          · exact each other held
          · exact probable
      | sparse width lines =>
          obtain ⟨sound, wide, high, within⟩ := proper
          cases written
          refine ⟨forall_mem_modify sound fun line held => ?_, wide, by simpa using high,
            forall_mem_modify within fun line held => ?_⟩
          · obtain ⟨sorted, each⟩ := held
            split
            · exact ⟨Sparse.ascending_erase sorted col,
                fun entry member => each entry (List.mem_of_mem_filter member)⟩
            · refine ⟨Sparse.ascending_insert sorted col p, fun entry member => ?_⟩
              rcases Sparse.mem_insert member with rfl | held
              · exact probable
              · exact each entry held
          · have known : col < cols := by
              rw [← wide]
              exact not_le.mp (not_or.mp inside).2
            exact put_within known held p

theorem get?_probability {row : List (Nat × Rat)}
    (each : ∀ entry ∈ row, 0 ≤ entry.2 ∧ entry.2 ≤ 1) (col : Nat) :
    0 ≤ (Sparse.get? row col).getD Weight.zero ∧ (Sparse.get? row col).getD Weight.zero ≤ 1 := by
  induction row with
  | nil => exact probability_zero
  | cons entry row ih =>
      obtain ⟨first, others⟩ := List.forall_mem_cons.mp each
      rw [Sparse.get?]
      split
      · exact first
      · exact ih others

theorem get_probability (sound : table.Sound) {row col : Nat} {p : Rat}
    (read : table.get row col = .ok p) : 0 ≤ p ∧ p ≤ 1 := by
  cases table with
  | dense cols cells =>
      rw [get] at read
      split at read
      · obtain ⟨place, _, read⟩ := bind_eq_ok_iff.mp read
        cases read
        cases found : cells[place]? with
        | none => exact probability_zero
        | some p => exact sound.2 p (Array.mem_of_getElem? found)
      · cases read
        exact probability_zero
  | sparse cols rows =>
      cases read
      cases found : rows[row]? with
      | none => exact probability_zero
      | some cells => exact get?_probability (sound cells (Array.mem_of_getElem? found)).2 col

theorem cell_probability (sound : table.Sound) (row col : Nat) :
    0 ≤ table.cell row col ∧ table.cell row col ≤ 1 := by
  cases read : table.get row col with
  | error fault =>
      rw [cell, read]
      exact probability_zero
  | ok p =>
      rw [cell_of_get read]
      exact get_probability sound read

/-- The cells of a row that are not zero, by column. -/
def listed (cell : Nat → Option Rat) (col : Nat) : Option (Nat × Rat) :=
  match cell col with
  | some p => if Weight.positive p then some (col, p) else none
  | none => none

theorem gathered_listed {cell : Nat → Option Rat} (nonneg : ∀ col, 0 ≤ (cell col).getD 0)
    (cols key : Nat) :
    Sparse.gathered ((List.range cols).filterMap (listed cell)) key =
      if key < cols then (cell key).getD 0 else 0 := by
  induction cols with
  | zero => rfl
  | succ cols ih =>
      have last : Sparse.gathered ([cols].filterMap (listed cell)) key =
          if key = cols then (cell key).getD 0 else 0 := by
        have held := nonneg cols
        cases found : cell cols with
        | none =>
            by_cases here : key = cols
            · simp [listed, found, here]
            · simp [listed, found, here]
        | some p =>
            rw [found] at held
            rcases lt_or_eq_of_le held with positive | zero
            · have positive : Weight.positive p = true := (Weight.positive_iff p).mpr positive
              by_cases here : key = cols
              · simp [listed, found, positive, here]
              · simp [listed, found, positive, here, Ne.symm here]
            · have zero : p = 0 := zero.symm
              by_cases here : key = cols
              · simp [listed, found, zero, here, Weight.positive, Weight.lt]
              · simp [listed, found, zero, here, Weight.positive, Weight.lt]
      rw [List.range_succ, List.filterMap_append, Sparse.gathered_append, ih, last]
      by_cases before : key < cols
      · rw [if_pos before, if_neg (by omega), if_pos (by omega), add_zero]
      · by_cases here : key = cols
        · rw [if_neg before, if_pos here, if_pos (by omega), zero_add]
        · rw [if_neg before, if_neg here, if_neg (by omega), add_zero]

theorem row_nonneg (sound : table.Sound) (row : Nat) : ∀ entry ∈ table.row row, 0 ≤ entry.2 := by
  intro entry member
  cases table with
  | dense cols cells =>
      rw [ProbabilityTable.row] at member
      split at member
      · obtain ⟨col, _, found⟩ := List.mem_filterMap.mp member
        split at found
        · rename_i p held
          split at found
          · cases found
            exact (sound.2 _ (Array.mem_of_getElem? held)).1
          · cases found
        · cases found
      · cases member
  | sparse cols rows =>
      rw [ProbabilityTable.row] at member
      cases found : rows[row]? with
      | none =>
          rw [found] at member
          cases member
      | some cells =>
          rw [found] at member
          exact ((sound cells (Array.mem_of_getElem? found)).2 entry member).1

/-- What is listed of a row under a column is what the cell holds. -/
theorem gathered_row (sound : table.Sound) {row : Nat} (inside : row < table.rows) (col : Nat) :
    Sparse.gathered (table.row row) col = table.cell row col := by
  cases table with
  | dense cols cells =>
      obtain ⟨small, each⟩ := sound
      have nonneg : ∀ col, 0 ≤ (cells[row * cols + col]?).getD 0 := by
        intro col
        cases found : cells[row * cols + col]? with
        | none => exact le_refl 0
        | some p => exact (each p (Array.mem_of_getElem? found)).1
      have inside : row < cells.size / cols := inside
      rw [ProbabilityTable.row, if_pos inside]
      refine (congrArg (Sparse.gathered · col) (List.filterMap_congr fun place _ => ?_)).trans
        ((gathered_listed nonneg cols col).trans ?_)
      · rw [listed]
        cases cells[row * cols + place]? with
        | none => rfl
        | some p => rfl
      split
      · rename_i within
        have bounded : row * cols + col < cells.size := by
          exact (mul_add_lt inside within).trans_le (Nat.div_mul_le_self cells.size cols)
        exact (cell_of_get (get_dense within (bounded.trans small))).symm
      · rename_i outside
        exact (cell_of_get (get_dense_beyond (Nat.le_of_not_lt outside))).symm
  | sparse cols rows =>
      rw [ProbabilityTable.row, cell_of_get (get_sparse ..)]
      cases found : rows[row]? with
      | none => rfl
      | some cells =>
          exact Sparse.gathered_of_ascending (sound cells (Array.mem_of_getElem? found)).1 col

/-! ## Rows that sum to one -/

theorem Shaped.rows_eq (shaped : table.Shaped rows cols) (inhabited : 0 < cols) :
    table.rows = rows := by
  cases table with
  | dense width cells =>
      obtain ⟨rfl, filled⟩ := shaped
      rw [ProbabilityTable.rows, filled, Nat.mul_div_cancel rows inhabited]
  | sparse width lines => exact shaped.2.1

theorem Shaped.row_within (shaped : table.Shaped rows cols) (row : Nat) :
    ∀ entry ∈ table.row row, entry.1 < cols := by
  intro entry member
  cases table with
  | dense width cells =>
      obtain ⟨rfl, _⟩ := shaped
      rw [ProbabilityTable.row] at member
      split at member
      · obtain ⟨col, listed, found⟩ := List.mem_filterMap.mp member
        split at found
        · split at found
          · cases found
            exact List.mem_range.mp listed
          · cases found
        · cases found
      · cases member
  | sparse width lines =>
      rw [ProbabilityTable.row] at member
      cases found : lines[row]? with
      | none =>
          rw [found] at member
          cases member
      | some line =>
          rw [found] at member
          exact shaped.2.2 line (Array.mem_of_getElem? found) entry member

theorem Proper.validate_eq_ok_iff (proper : table.Proper rows cols) :
    table.validate = .ok () ↔ ∀ row < table.rows,
      |∑ col ∈ Finset.range cols, table.cell row col - 1| ≤ Weight.tolerance := by
  rw [validate, forM_eq_ok_iff]
  simp only [List.mem_range]
  refine forall₂_congr fun row inside => ?_
  have total : Weight.sum ((table.row row).map (·.2)) =
      ∑ col ∈ Finset.range cols, table.cell row col := by
    rw [Weight.sum_eq, ← Sparse.sum_gathered (proper.shaped.row_within row)]
    exact Finset.sum_congr rfl fun col _ => gathered_row proper.sound inside col
  rw [← total, ← Weight.strays_eq_false_iff]
  cases Weight.strays (Weight.sum ((table.row row).map (·.2))) with
  | true => simp
  | false => simp

end TeamPlanning.ProbabilityTable
