import TeamPlanning.Proofs.Storage.Agreement
import TeamPlanning.Proofs.Storage.Cells
import TeamPlanning.Weight.Float

/-! # Reads outside of tables

Outside of its rows and columns a table answers zero, if it answers. A sparse table always does. A
dense one looks at the column but not at the row, and halts the machine where the position of the cell
is no machine word. With two columns or more there are rows that far out. -/

set_option autoImplicit false

namespace TeamPlanning.ProbabilityTable

variable {W : Type} [Weight W] {rows cols row col : Nat} {storage : Storage}
  {table : ProbabilityTable W}

namespace Framed

/-- Outside of the table there is zero, unless the position of the cell halts the machine. -/
theorem get_outside (framed : table.Framed rows cols storage) (outside : rows ≤ row ∨ cols ≤ col) :
    table.get row col =
      if storage = .dense ∧ col < cols ∧ wordBound ≤ row * cols + col then
        .error (.halted (if row * cols < wordBound then .sum else .product))
      else .ok Weight.zero := by
  by_cases within : col < cols
  · have beyond : rows ≤ row := outside.resolve_right (Nat.not_le_of_lt within)
    cases framed with
    | sparse long =>
        rw [if_neg fun far => Storage.noConfusion far.1]
        exact get_sparse_below (long.le.trans beyond) cols col
    | dense filled =>
        by_cases fits : row * cols + col < wordBound
        · rw [if_neg fun far => Nat.not_lt_of_le far.2.2 fits]
          exact get_dense_below filled beyond fits
        · have far : wordBound ≤ row * cols + col := Nat.le_of_not_lt fits
          rw [if_pos ⟨rfl, within, far⟩]
          exact get_dense_of_le within far
  · rw [if_neg fun far => within far.2.1]
    exact framed.get_beyond (Nat.le_of_not_lt within)

omit [Weight W] in
/-- Where a dense table counts no rows, every column is beyond. -/
theorem outside_iff (framed : table.Framed rows cols storage) :
    table.rows ≤ row ∨ table.cols ≤ col ↔ rows ≤ row ∨ cols ≤ col := by
  rw [framed.cols_eq]
  by_cases inhabited : 0 < cols
  · rw [framed.rows_eq inhabited]
  · simp [Nat.eq_zero_of_not_pos inhabited]

theorem write (framed : table.Framed rows cols storage) (row col : Nat) (p : W) :
    (table.write row col p).2.Framed rows cols storage := by
  unfold ProbabilityTable.write
  cases written : table.set row col p with
  | ok next => exact (framed.set_eq_ok written).2.1
  | error fault => exact framed

theorem writeAll (framed : table.Framed rows cols storage) (writes : List (Nat × Nat × W)) :
    (table.writeAll writes).2.Framed rows cols storage := by
  induction writes generalizing table with
  | nil => exact framed
  | cons write writes ih => exact ih (framed.write write.1 write.2.1 write.2.2)

end Framed

/-! ## What is read outside -/

/-- Whatever row and column a machine word can name, zero is read outside of the table. -/
def BlankOutside (table : ProbabilityTable W) : Prop :=
  ∀ row < wordBound, ∀ col < wordBound, table.rows ≤ row ∨ table.cols ≤ col →
    table.get row col = .ok Weight.zero

theorem Framed.blankOutside_iff (framed : table.Framed rows cols storage) :
    table.BlankOutside ↔ storage = .sparse ∨ cols ≤ 1 := by
  constructor
  · intro blank
    by_contra exposed
    simp only [not_or, not_le] at exposed
    obtain ⟨stored, wide⟩ := exposed
    cases storage with
    | sparse => exact stored rfl
    | dense =>
        -- Twice this row is no machine word, and the table has fewer rows.
        have far : wordBound ≤ wordBound / 2 * cols + 0 := by
          have double : wordBound / 2 * 2 ≤ wordBound / 2 * cols := Nat.mul_le_mul_left _ wide
          have even : wordBound / 2 * 2 = wordBound := by decide
          omega
        have beyond : rows ≤ wordBound / 2 := by
          cases framed with
          | dense filled small =>
              have double : rows * 2 ≤ rows * cols := Nat.mul_le_mul_left rows wide
              omega
        have read := blank (wordBound / 2) (by decide) 0 (by decide)
          (framed.outside_iff.mpr (.inl beyond))
        rw [framed.get_outside (.inl beyond), if_pos ⟨rfl, by omega, far⟩] at read
        cases read
  · intro given row word col _ outside
    rw [framed.get_outside (framed.outside_iff.mp outside), if_neg]
    rintro ⟨rfl, within, far⟩
    rcases given with stored | narrow
    · cases stored
    · -- The position in a single column is the row itself.
      obtain ⟨rfl, rfl⟩ : cols = 1 ∧ col = 0 := by omega
      omega

/-- A table that was made and written answers zero everywhere outside just if it is sparse or has one
column at most. A single read outside answers zero, unless the table is dense, the column one of its
own and the position of the cell no machine word: there the machine halts, so that no position ever
comes around to a cell of the table. -/
theorem blankOutside_iff_of_writeAll {start : ProbabilityTable W}
    (made : create storage rows cols = .ok start) (writes : List (Nat × Nat × W))
    (reached : (start.writeAll writes).2 = table) :
    (table.BlankOutside ↔ storage = .sparse ∨ cols ≤ 1) ∧
    ∀ row col, table.rows ≤ row ∨ table.cols ≤ col →
      table.get row col =
        if storage = .dense ∧ col < cols ∧ wordBound ≤ row * cols + col then
          .error (.halted (if row * cols < wordBound then .sum else .product))
        else .ok Weight.zero := by
  have framed : table.Framed rows cols storage := reached ▸ (framed_of_create made).writeAll writes
  exact ⟨framed.blankOutside_iff, fun row col outside =>
    framed.get_outside (framed.outside_iff.mp outside)⟩

/-- In a table of three columns, row 6148914691236517205 is the last one whose cells have positions. -/
theorem blankOutside_iff_of_writeAll_edge : ∃ start table : ProbabilityTable Float,
    create .dense 2 3 = .ok start ∧ (start.writeAll [(1, 2, Weight.one)]).2 = table ∧
      table.get 1 2 = .ok Weight.one ∧
        table.get 6148914691236517205 0 = .ok Weight.zero ∧
          table.get 6148914691236517205 1 = .error (.halted .sum) ∧ ¬ table.BlankOutside := by
  obtain ⟨start, made⟩ : ∃ start : ProbabilityTable Float, create .dense 2 3 = .ok start := ⟨_, rfl⟩
  refine ⟨start, _, made, rfl, ?_⟩
  obtain ⟨blank, reads⟩ := blankOutside_iff_of_writeAll made [(1, 2, Weight.one)] rfl
  have outside : (start.writeAll [(1, 2, Weight.one)]).2.rows ≤ 6148914691236517205 := by
    cases made
    decide +kernel
  refine ⟨?_, reads _ 0 (.inl outside), reads _ 1 (.inl outside), ?_⟩
  · cases made
    rfl
  · rw [blank]
    decide

/-- Twice 9223372036854775808 is no machine word, so that row of a table with two columns cannot be
read. -/
theorem halts_outside : ∃ start table : ProbabilityTable Float,
    create .dense 2 2 = .ok start ∧ (start.writeAll [(0, 0, Weight.one)]).2 = table ∧
      table.rows ≤ 9223372036854775808 ∧
        table.get 9223372036854775808 0 = .error (.halted .product) ∧ ¬ table.BlankOutside := by
  obtain ⟨start, made⟩ : ∃ start : ProbabilityTable Float, create .dense 2 2 = .ok start := ⟨_, rfl⟩
  refine ⟨start, _, made, rfl, ?_⟩
  cases made
  have outside : (2 * 2 / 2 : Nat) ≤ 9223372036854775808 := by decide
  refine ⟨outside, rfl, fun blank => ?_⟩
  have read := blank 9223372036854775808 (by decide) 0 (by decide) (.inl outside)
  cases read

end TeamPlanning.ProbabilityTable
