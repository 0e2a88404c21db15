import TeamPlanning.Bounded
import TeamPlanning.Machine
import TeamPlanning.Sparse
import TeamPlanning.Weight.Basic

/-! # Probability tables

Tables whose rows are meant to be distributions. A dense table stores every cell, row by row; a
sparse one stores the cells of each row that are not zero. -/

set_option autoImplicit false

namespace TeamPlanning

/-- How a table holds its cells. -/
inductive Storage where
  | dense
  | sparse
  deriving DecidableEq, Repr

/-- A table of probabilities. The cells of a dense table are those of its rows, one after the
other. -/
inductive ProbabilityTable (W : Type) where
  | dense (cols : Nat) (cells : Array W)
  | sparse (cols : Nat) (rows : Array (List (Nat × W)))

namespace ProbabilityTable

variable {W : Type} [Weight W]

/-- A table of zeros. The cells of a dense table must be countable. Room for them, and for the rows of a
sparse table, is taken to be there: the capacity of arrays is not asked for here. -/
def create (storage : Storage) (rows cols : Nat) : Except Fault (ProbabilityTable W) :=
  match storage with
  | .dense => do
      let cells ← Bounded.prod [rows, cols]
      return .dense cols (Array.replicate cells Weight.zero)
  | .sparse => .ok (.sparse cols (Array.replicate rows []))

def storage : ProbabilityTable W → Storage
  | .dense _ _ => .dense
  | .sparse _ _ => .sparse

/-- How many rows the table has; a dense table without columns has none. -/
def rows : ProbabilityTable W → Nat
  | .dense cols cells => cells.size / cols
  | .sparse _ rows => rows.size

def cols : ProbabilityTable W → Nat
  | .dense cols _ => cols
  | .sparse cols _ => cols

/-- The position of a cell of a dense table. It is not checked before whether it is a machine word. -/
def position (cols row col : Nat) : Except Fault Nat := do
  Machine.add (← Machine.mul row cols) col

/-- The probability in a cell; zero where there is none. In a dense table only the column is compared
with the shape, so the position of a row far out may halt the machine. -/
def get (table : ProbabilityTable W) (row col : Nat) : Except Fault W :=
  match table with
  | .dense cols cells =>
      if col < cols then do return cells[← position cols row col]?.getD Weight.zero
      else .ok Weight.zero
  | .sparse _ rows => .ok (((rows[row]?).bind (Sparse.get? · col)).getD Weight.zero)

/-- The probability that is read in a cell, for rows from which the machine can read. -/
def cell (table : ProbabilityTable W) (row col : Nat) : W :=
  (table.get row col).toOption.getD Weight.zero

def set (table : ProbabilityTable W) (row col : Nat) (p : W) :
    Except Fault (ProbabilityTable W) :=
  if table.rows ≤ row ∨ table.cols ≤ col then
    .error (.missing (.cell row col table.rows table.cols))
  else if !Weight.isProbability p then .error (.unsound (.cell (Weight.text p) row col))
  else
    match table with
    | .dense cols cells => do
        return .dense cols (cells.setIfInBounds (← position cols row col) p)
    | .sparse cols rows =>
        let write := fun cells =>
          if Weight.eq p Weight.zero then Sparse.erase cells col else Sparse.insert cells col p
        .ok (.sparse cols (rows.modify row write))

section Reading

variable {cols row col : Nat} {cells : Array W} {p : W}

omit [Weight W] in
theorem position_of_lt (fits : row * cols + col < wordBound) :
    position cols row col = .ok (row * cols + col) := by
  rw [position, Machine.mul_of_lt (by omega)]
  exact Machine.add_of_lt fits

omit [Weight W] in
theorem position_of_le (beyond : wordBound ≤ row * cols + col) :
    position cols row col =
      .error (.halted (if row * cols < wordBound then .sum else .product)) := by
  by_cases first : row * cols < wordBound
  · rw [position, Machine.mul_of_lt first, if_pos first]
    exact Machine.add_of_le beyond
  · rw [position, Machine.mul_of_le (Nat.le_of_not_lt first), if_neg first]
    rfl

theorem get_dense (within : col < cols) (fits : row * cols + col < wordBound) :
    get (.dense cols cells) row col = .ok (cells[row * cols + col]?.getD Weight.zero) := by
  rw [get, if_pos within, position_of_lt fits]
  rfl

theorem get_dense_beyond (beyond : cols ≤ col) :
    get (.dense cols cells) row col = .ok Weight.zero := if_neg (Nat.not_lt_of_le beyond)

/-- A dense table halts the machine where the position of a cell in one of its columns is no machine
word. -/
theorem get_dense_of_le (within : col < cols) (beyond : wordBound ≤ row * cols + col) :
    get (.dense cols cells) row col =
      .error (.halted (if row * cols < wordBound then .sum else .product)) := by
  rw [get, if_pos within, position_of_le beyond]
  rfl

theorem get_sparse (lines : Array (List (Nat × W))) (cols row col : Nat) :
    get (.sparse cols lines) row col =
      .ok (((lines[row]?).bind (Sparse.get? · col)).getD Weight.zero) := rfl

theorem cell_of_get {table : ProbabilityTable W} (read : table.get row col = .ok p) :
    table.cell row col = p := by
  rw [cell, read]
  rfl

end Reading

/-- The cells of a row that are not zero, by column. -/
def row (table : ProbabilityTable W) (row : Nat) : List (Nat × W) :=
  match table with
  | .dense cols cells =>
      if row < cells.size / cols then
        (List.range cols).filterMap fun col =>
          match cells[row * cols + col]? with
          | some p => if Weight.positive p then some (col, p) else none
          | none => none
      else []
  | .sparse _ rows => rows[row]?.getD []

/-- Whether every row sums to one up to the tolerance. -/
def validate (table : ProbabilityTable W) : Except Fault Unit :=
  (List.range table.rows).forM fun row =>
    let sum := Weight.sum ((table.row row).map (·.2))
    if Weight.strays sum then .error (.unsound (.row row (Weight.text sum))) else .ok ()

end ProbabilityTable

end TeamPlanning
