import TeamPlanning.Proofs.Refusals
import TeamPlanning.Proofs.Storage.Table
import TeamPlanning.Proofs.Table

/-! # Cells of tables

What is read from a cell is what was written to it last, in either storage, if rows are found by keys
that do not share them. -/

set_option autoImplicit false

namespace TeamPlanning

variable {W : Type} [Weight W]

/-- What a storage keeps of a probability. A sparse one holds no zeros, so that every zero reads as
that of a blank cell. -/
def Storage.keep (storage : Storage) (p : W) : W :=
  match storage with
  | .dense => p
  | .sparse => if Weight.eq p Weight.zero then Weight.zero else p

theorem Storage.keep_rat (storage : Storage) (p : Rat) : storage.keep p = p := by
  cases storage with
  | dense => rfl
  | sparse =>
      simp only [keep]
      split
      · rename_i none
        exact (eq_of_beq none).symm
      · rfl

theorem Sparse.get?_eq_none {β : Type} {row : List (Nat × β)} {key : Nat}
    (absent : ∀ entry ∈ row, entry.1 ≠ key) : get? row key = none := by
  induction row with
  | nil => rfl
  | cons entry row ih =>
      obtain ⟨first, others⟩ := List.forall_mem_cons.mp absent
      rw [get?, if_neg first]
      exact ih others

namespace ProbabilityTable

/-- The cells fill the shape. Those of a dense table can be counted, and a sparse one holds none
beyond its columns. -/
inductive Framed (rows cols : Nat) : Storage → ProbabilityTable W → Prop where
  | dense {cells : Array W} (filled : cells.size = rows * cols) (small : rows * cols < wordBound) :
      Framed rows cols .dense (.dense cols cells)
  | sparse {lines : Array (List (Nat × W))} (long : lines.size = rows)
      (within : ∀ line ∈ lines, ∀ entry ∈ line, entry.1 < cols) :
      Framed rows cols .sparse (.sparse cols lines)

variable {rows cols row col : Nat} {storage : Storage} {table table' : ProbabilityTable W} {p : W}

theorem place_injective {row' col' : Nat} (within : col < cols) (within' : col' < cols)
    (same : row * cols + col = row' * cols + col') : row = row' ∧ col = col' := by
  obtain rfl : row = row' := row_eq_of_place within within' same
  exact ⟨rfl, Nat.add_left_cancel same⟩

theorem framed_of_create (made : create storage rows cols = .ok table) :
    table.Framed rows cols storage := by
  cases storage with
  | dense =>
      obtain ⟨count, counted, made⟩ := bind_eq_ok_iff.mp made
      obtain ⟨product, small⟩ := Bounded.prod_eq_ok counted
      obtain rfl : count = rows * cols := by simpa using product
      cases made
      exact .dense (by simp) small
  | sparse =>
      cases made
      apply Framed.sparse
      · simp
      · intro line member
        obtain ⟨_, rfl⟩ := Array.mem_replicate.mp member
        exact List.forall_mem_nil _

theorem cell_put_dense {cells : Array W} (filled : cells.size = rows * cols)
    (small : rows * cols < wordBound) (inside : row < rows) (within : col < cols) {row' : Nat}
    (inside' : row' < rows) (col' : Nat) :
    cell (.dense cols (cells.setIfInBounds (row * cols + col) p)) row' col' =
      if row = row' ∧ col = col' then p else cell (.dense cols cells) row' col' := by
  have bounded := mul_add_lt inside within
  by_cases within' : col' < cols
  · have fits := (mul_add_lt inside' within').trans small
    rw [cell_of_get (get_dense within' fits), cell_of_get (get_dense within' fits),
      Array.getElem?_setIfInBounds]
    by_cases same : row = row' ∧ col = col'
    · obtain ⟨rfl, rfl⟩ := same
      simp [filled, bounded]
    · have apart : row * cols + col ≠ row' * cols + col' := fun place =>
        same (place_injective within within' place)
      rw [if_neg apart, if_neg same]
  · have apart : ¬ (row = row' ∧ col = col') := by omega
    have beyond : cols ≤ col' := Nat.le_of_not_lt within'
    rw [if_neg apart, cell_of_get (get_dense_beyond beyond), cell_of_get (get_dense_beyond beyond)]

theorem cell_put_sparse {lines : Array (List (Nat × W))} {row' : Nat} (inside' : row' < lines.size)
    (col' : Nat) :
    cell (.sparse cols (lines.modify row fun line =>
        if Weight.eq p Weight.zero then Sparse.erase line col else Sparse.insert line col p))
          row' col' =
      if row = row' ∧ col = col' then Storage.sparse.keep p
      else cell (.sparse cols lines) row' col' := by
  simp only [cell_of_get (get_sparse ..), Array.getElem?_modify, Array.getElem?_eq_getElem inside', Option.map_some,
    Option.bind_some]
  by_cases here : row = row'
  · simp only [here, ↓reduceIte, true_and, Option.bind_some, Storage.keep]
    split
    · rw [Sparse.get?_erase]
      split <;> rfl
    · rw [Sparse.get?_insert]
      split <;> rfl
  · simp only [here, ↓reduceIte, false_and, Option.bind_some]

/-- The position of a cell is its number among the cells of the rows, within a machine word. -/
def Exact (rows : Nat) (table : ProbabilityTable W) : Prop :=
  ∀ row < rows, ∀ col < table.cols, row * table.cols + col < wordBound ∧
    position table.cols row col = .ok (row * table.cols + col)

namespace Framed

section Shape

omit [Weight W]

theorem rows_le (framed : table.Framed rows cols storage) : table.rows ≤ rows := by
  cases framed with
  | dense filled =>
      simp only [ProbabilityTable.rows, filled]
      exact Nat.div_le_of_le_mul (Nat.mul_comm rows cols).le
  | sparse long => exact long.le

/-- A dense table without columns counts no rows. -/
theorem rows_eq (framed : table.Framed rows cols storage) (inhabited : 0 < cols) :
    table.rows = rows := by
  cases framed with
  | dense filled => rw [ProbabilityTable.rows, filled, Nat.mul_div_cancel rows inhabited]
  | sparse long => exact long

theorem cols_eq (framed : table.Framed rows cols storage) : table.cols = cols := by
  cases framed with
  | dense => rfl
  | sparse => rfl

theorem storage_eq (framed : table.Framed rows cols storage) : table.storage = storage := by
  cases framed with
  | dense => rfl
  | sparse => rfl

theorem exact (framed : table.Framed rows cols .dense) : table.Exact rows := by
  cases framed with
  | dense filled small =>
      intro row inside col within
      obtain ⟨placed, bounded⟩ := position_eq_ok small inside within
      exact ⟨bounded.trans small, placed⟩

end Shape

variable (framed : table.Framed rows cols storage)
include framed

theorem get_beyond (beyond : cols ≤ col) : table.get row col = .ok Weight.zero := by
  cases framed with
  | dense => exact get_dense_beyond beyond
  | @sparse lines long within =>
      rw [get_sparse]
      cases held : lines[row]? with
      | none => rfl
      | some line =>
          have absent : ∀ entry ∈ line, entry.1 ≠ col := by
            intro entry member
            have inside := within line (Array.mem_of_getElem? held) entry member
            omega
          simp only [Option.bind_some, Sparse.get?_eq_none absent, Option.getD_none]

/-- In a row of the table every column can be read. -/
theorem readable (inside : row < rows) (col : Nat) : ∃ p, table.get row col = .ok p := by
  by_cases within : col < cols
  · cases framed with
    | dense filled small => exact ⟨_, get_dense within ((mul_add_lt inside within).trans small)⟩
    | sparse => exact ⟨_, get_sparse ..⟩
  · exact ⟨_, framed.get_beyond (Nat.le_of_not_lt within)⟩

/-- A write that succeeds is made to a cell of the table, and changes no other. -/
theorem set_eq_ok (written : table.set row col p = .ok table') :
    (row < rows ∧ col < cols) ∧ table'.Framed rows cols storage ∧
      ∀ row' < rows, ∀ col', table'.cell row' col' =
        if row = row' ∧ col = col' then storage.keep p else table.cell row' col' := by
  have high := framed.rows_le
  have wide := framed.cols_eq
  unfold set at written
  split at written
  · cases written
  · rename_i inside
    split at written
    · cases written
    · have known : row < rows ∧ col < cols := by omega
      refine ⟨known, ?_⟩
      cases framed with
      | @dense cells filled small =>
          obtain ⟨placed, _⟩ := position_eq_ok small known.1 known.2
          cases (bind_of_eq_ok placed _).symm.trans written
          refine ⟨.dense (by simpa using filled) small, fun row' inside' col' => ?_⟩
          exact cell_put_dense filled small known.1 known.2 inside' col'
      | @sparse lines long within =>
          cases written
          refine ⟨.sparse (by simpa using long) ?_, fun row' inside' col' => ?_⟩
          · exact forall_mem_modify within fun line below => put_within known.2 below p
          · exact cell_put_sparse (long ▸ inside') col'

end Framed

/-! ## Rows found by keys -/

/-- What a column holds in a row that was looked for; zero if there is no such row. -/
def look (table : ProbabilityTable W) (place : Except Fault Nat) (col : Nat) : W :=
  match place with
  | .ok row => table.cell row col
  | .error _ => Weight.zero

theorem look_of_create (made : create storage rows cols = .ok table) (place : Except Fault Nat)
    (col : Nat) : table.look place col = Weight.zero := by
  cases place with
  | ok row => exact cell_of_create made row col
  | error => rfl

/-- Keys find rows of a table, and different keys find different ones. -/
structure Finds {κ : Type} (rows : Nat) (find : κ → Except Fault Nat) : Prop where
  below : ∀ {key row}, find key = .ok row → row < rows
  injective : ∀ {key key' row}, find key = .ok row → find key' = .ok row → key = key'

theorem Framed.look_beyond (framed : table.Framed rows cols storage) (beyond : cols ≤ col)
    (place : Except Fault Nat) : table.look place col = Weight.zero := by
  cases place with
  | ok row => exact cell_of_get (framed.get_beyond beyond)
  | error => rfl

theorem Framed.look_set {κ : Type} [DecidableEq κ] {find : κ → Except Fault Nat}
    (framed : table.Framed rows cols storage) (finds : Finds rows find) (key : κ)
    (found : find key = .ok row) (written : table.set row col p = .ok table') (key' : κ)
    (col' : Nat) :
    table'.look (find key') col' =
      if key = key' ∧ col = col' then storage.keep p else table.look (find key') col' := by
  obtain ⟨_, _, read⟩ := framed.set_eq_ok written
  cases found' : find key' with
  | error fault =>
      have apart : ¬ (key = key' ∧ col = col') := by
        rintro ⟨rfl, _⟩
        rw [found] at found'
        cases found'
      exact (if_neg apart).symm
  | ok row' =>
      have same : row = row' ↔ key = key' := by
        constructor
        · rintro rfl
          exact finds.injective found found'
        · rintro rfl
          exact Except.ok.inj (found.symm.trans found')
      simp only [look, read row' (finds.below found'), same]

end ProbabilityTable

end TeamPlanning
