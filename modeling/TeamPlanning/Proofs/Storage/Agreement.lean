import TeamPlanning.Proofs.Storage.Table

/-! # Tables written alike

A dense and a sparse table of one shape take and refuse the same writes, with the same faults, and
afterwards answer alike. There must be a column, since a dense table without columns counts no rows;
and cells outside of the table count only as far as their positions fit a machine word. -/

set_option autoImplicit false

namespace TeamPlanning

namespace ProbabilityTable

variable {W : Type} [Weight W]

/-- The outcome of a write to a cell, and the table after it. -/
def write (table : ProbabilityTable W) (row col : Nat) (p : W) :
    Except Fault Unit × ProbabilityTable W :=
  match table.set row col p with
  | .ok next => (.ok (), next)
  | .error fault => (.error fault, table)

/-- The outcomes of writes that are made one after the other, each to the cell of a row and a column,
and the table after the last one. -/
def writeAll (table : ProbabilityTable W) :
    List (Nat × Nat × W) → List (Except Fault Unit) × ProbabilityTable W
  | [] => ([], table)
  | (row, col, p) :: writes =>
      let (outcome, next) := table.write row col p
      let (outcomes, last) := next.writeAll writes
      (outcome :: outcomes, last)

/-- Whoever asks cannot tell the tables of the given shape apart. What both list of a row are its
cells above zero, in the order of columns. Cells are compared as numbers, since zero may be written in
two ways. -/
structure AnswersAlike (rows cols : Nat) (dense sparse : ProbabilityTable W) : Prop where
  rows_eq : dense.rows = rows ∧ sparse.rows = rows
  cols_eq : dense.cols = cols ∧ sparse.cols = cols
  row_eq : dense.row = sparse.row
  ascending : ∀ row, Sparse.Ascending (dense.row row)
  mem_dense_iff : ∀ row col p, (col, p) ∈ dense.row row ↔
    (row < rows ∧ col < cols) ∧ dense.get row col = .ok p ∧ Weight.positive p = true
  mem_sparse_iff : ∀ row col p, (col, p) ∈ sparse.row row ↔
    sparse.get row col = .ok p ∧ Weight.positive p = true
  get_eq : ∀ row col, row * cols + col < wordBound →
    ∃ p q, dense.get row col = .ok p ∧ sparse.get row col = .ok q ∧ Weight.eq p q = true
  validate_eq : dense.validate = sparse.validate

namespace Mirrors

variable {rows cols row col : Nat} {dense sparse : ProbabilityTable W} {p : W}
  (mirrors : Mirrors rows cols dense sparse)
include mirrors

theorem cols_eq : dense.cols = cols ∧ sparse.cols = cols := by
  cases mirrors
  exact ⟨rfl, rfl⟩

/-! ## Rows and cells -/

theorem row_beyond (beyond : rows ≤ row) : dense.row row = [] ∧ sparse.row row = [] := by
  obtain ⟨counted, _⟩ := mirrors.rows_eq
  have few : dense.rows ≤ row := by
    rw [counted]
    split <;> omega
  cases mirrors with
  | intro filled small long =>
      refine ⟨if_neg (Nat.not_lt_of_le few), ?_⟩
      rw [ProbabilityTable.row, Array.getElem?_eq_none (by omega), Option.getD_none]

theorem row_eq_condense (inside : row < rows) :
    dense.row row = condense cols fun col => (dense.get row col).toOption := by
  rw [mirrors.row_eq inside]
  obtain ⟨filled, small, long, probable, same⟩ := mirrors
  rename_i cells lines
  rw [ProbabilityTable.row, same row inside, Option.getD_some]
  refine condense_congr fun col within => ?_
  have bounded := mul_add_lt inside within
  rw [get_dense within (bounded.trans small),
    Array.getElem?_eq_getElem (by omega : row * cols + col < cells.size)]
  rfl

theorem mem_dense_iff : (col, p) ∈ dense.row row ↔
    (row < rows ∧ col < cols) ∧ dense.get row col = .ok p ∧ Weight.positive p = true := by
  have read : (dense.get row col).toOption = some p ↔ dense.get row col = .ok p :=
    ⟨eq_ok_of_toOption, fun read => by rw [read]; rfl⟩
  by_cases inside : row < rows
  · rw [mirrors.row_eq_condense inside, mem_condense_iff, Option.filter_eq_some_iff, read]
    simp only [inside, true_and]
  · rw [(mirrors.row_beyond (Nat.le_of_not_lt inside)).1]
    simp only [List.not_mem_nil, inside, false_and]

/-- What is not listed reads as zero, and zero is not listed. -/
theorem mem_sparse_iff (laws : Weight.Comparable W) : (col, p) ∈ sparse.row row ↔
    sparse.get row col = .ok p ∧ Weight.positive p = true := by
  have blank : ¬ ((Weight.zero : W) = p ∧ Weight.positive p = true) := by
    rintro ⟨rfl, positive⟩
    rw [laws.positive_zero] at positive
    cases positive
  cases mirrors with
  | @intro cells lines filled small long probable same =>
      rw [ProbabilityTable.row, get_sparse, Except.ok.injEq]
      by_cases inside : row < rows
      · rw [same row inside, Option.getD_some, Option.bind_some,
          Sparse.mem_iff_get? (ascending_condense cols _)]
        cases found : Sparse.get? (condense cols fun col => cells[row * cols + col]?) col with
        | none => simpa using blank
        | some q =>
            rw [← Sparse.mem_iff_get? (ascending_condense cols _), mem_condense_iff] at found
            have positive : Weight.positive q = true := (Option.filter_eq_some_iff.mp found.2).2
            rw [Option.some.injEq, Option.getD_some]
            constructor
            · rintro rfl
              exact ⟨rfl, positive⟩
            · exact And.left
      · rw [Array.getElem?_eq_none (by omega)]
        simpa using blank

/-- Outside of the rows both tables answer zero, if the position of the cell fits. -/
theorem get_beyond (fits : row * cols + col < wordBound) (beyond : rows ≤ row) :
    dense.get row col = .ok Weight.zero ∧ sparse.get row col = .ok Weight.zero := by
  cases mirrors with
  | intro filled small long =>
      exact ⟨get_dense_below filled beyond fits, get_sparse_below (long.le.trans beyond) cols col⟩

theorem answersAlike (laws : Weight.Comparable W) (inhabited : 0 < cols) :
    AnswersAlike rows cols dense sparse := by
  obtain ⟨counted, counted'⟩ := mirrors.rows_eq
  constructor
  case rows_eq => exact ⟨counted.trans (if_pos inhabited), counted'⟩
  case cols_eq => exact mirrors.cols_eq
  case mem_dense_iff => exact fun _ _ _ => mirrors.mem_dense_iff
  case mem_sparse_iff => exact fun _ _ _ => mirrors.mem_sparse_iff laws
  case validate_eq => exact mirrors.validate_eq (.inl inhabited)
  case row_eq =>
    funext row
    by_cases inside : row < rows
    · exact mirrors.row_eq inside
    · obtain ⟨first, second⟩ := mirrors.row_beyond (Nat.le_of_not_lt inside)
      rw [first, second]
  case ascending =>
    intro row
    by_cases inside : row < rows
    · rw [mirrors.row_eq_condense inside]
      exact ascending_condense cols _
    · rw [(mirrors.row_beyond (Nat.le_of_not_lt inside)).1]
      exact List.Pairwise.nil
  case get_eq =>
    intro row col fits
    by_cases inside : row < rows
    · exact mirrors.get_eq laws inside col
    · obtain ⟨first, second⟩ := mirrors.get_beyond fits (Nat.le_of_not_lt inside)
      exact ⟨_, _, first, second, laws.eq_self _ laws.isProbability_zero⟩

/-! ## Writes -/

theorem set_beyond (inhabited : 0 < cols) (beyond : rows ≤ row) (col : Nat) (p : W) :
    dense.set row col p = .error (.missing (.cell row col rows cols)) ∧
      sparse.set row col p = .error (.missing (.cell row col rows cols)) := by
  obtain ⟨counted, counted'⟩ := mirrors.rows_eq
  obtain ⟨wide, wide'⟩ := mirrors.cols_eq
  rw [if_pos inhabited] at counted
  unfold ProbabilityTable.set
  rw [counted, counted', wide, wide', if_pos (.inl beyond), if_pos (.inl beyond)]
  exact ⟨rfl, rfl⟩

theorem write_alike (laws : Weight.Comparable W) (inhabited : 0 < cols) (row col : Nat) (p : W) :
    (dense.write row col p).1 = (sparse.write row col p).1 ∧
      Mirrors rows cols (dense.write row col p).2 (sparse.write row col p).2 := by
  unfold write
  by_cases inside : row < rows
  · rcases mirrors.set_alike laws inside col p with
      ⟨_, dense', sparse', written, written', alike⟩ | ⟨fault, fault', refused, refused', _, same⟩
    · rw [written, written']
      exact ⟨rfl, alike⟩
    · obtain rfl := same.mpr inhabited
      rw [refused, refused']
      exact ⟨rfl, mirrors⟩
  · obtain ⟨refused, refused'⟩ :=
      mirrors.set_beyond inhabited (Nat.le_of_not_lt inside) col p
    rw [refused, refused']
    exact ⟨rfl, mirrors⟩

theorem writeAll_alike (laws : Weight.Comparable W) (inhabited : 0 < cols)
    (writes : List (Nat × Nat × W)) :
    (dense.writeAll writes).1 = (sparse.writeAll writes).1 ∧
      Mirrors rows cols (dense.writeAll writes).2 (sparse.writeAll writes).2 := by
  induction writes generalizing dense sparse with
  | nil => exact ⟨rfl, mirrors⟩
  | cons write writes ih =>
      obtain ⟨row, col, p⟩ := write
      obtain ⟨same, alike⟩ := mirrors.write_alike laws inhabited row col p
      obtain ⟨sames, last⟩ := ih alike
      exact ⟨congrArg₂ List.cons same sames, last⟩

end Mirrors

/-- A dense and a sparse table that were made with the same rows and columns, and written alike: every
write ends in the same way, also the refused ones, whichever cells they ask for and whatever they put
there. Afterwards the tables answer alike. -/
theorem writeAll_agrees (laws : Weight.Comparable W) {rows cols : Nat} (inhabited : 1 ≤ cols)
    {dense sparse : ProbabilityTable W} (made : create .dense rows cols = .ok dense)
    (made' : create .sparse rows cols = .ok sparse) (writes : List (Nat × Nat × W)) :
    (dense.writeAll writes).1 = (sparse.writeAll writes).1 ∧
      AnswersAlike rows cols (dense.writeAll writes).2 (sparse.writeAll writes).2 := by
  obtain ⟨same, alike⟩ := (mirrors_of_create laws made made').writeAll_alike laws inhabited writes
  exact ⟨same, alike.answersAlike laws inhabited⟩

end ProbabilityTable

/-! ## Weights that are no fractions -/

/-- Fractions, a negative zero besides, and something that is not a number. -/
inductive SignedWeight where
  | fraction (value : Rat)
  | negativeZero
  | notANumber
  deriving DecidableEq

namespace SignedWeight

def value? : SignedWeight → Option Rat
  | .fraction value => some value
  | .negativeZero => some 0
  | .notANumber => none

def combine (operation : Rat → Rat → Rat) (x y : SignedWeight) : SignedWeight :=
  match x.value?, y.value? with
  | some a, some b => .fraction (operation a b)
  | _, _ => .notANumber

/-- Nothing compares with what is not a number. -/
def compare (test : Rat → Rat → Bool) (x y : SignedWeight) : Bool :=
  match x.value?, y.value? with
  | some a, some b => test a b
  | _, _ => false

end SignedWeight

instance : Weight SignedWeight where
  add := .combine (· + ·)
  sub := .combine (· - ·)
  mul := .combine (· * ·)
  div := .combine (· / ·)
  zero := .fraction 0
  one := .fraction 1
  emptySum := .negativeZero
  ofNat n := .fraction n
  lt := SignedWeight.compare Weight.lt
  le := SignedWeight.compare Weight.le
  eq := SignedWeight.compare Weight.eq
  abs x := .combine (fun a _ => Weight.abs a) x x
  isNaN x := x.value?.isNone
  text
    | .fraction value => fractionText value
    | .negativeZero => "-0"
    | .notANumber => "NaN"

theorem SignedWeight.comparable : Weight.Comparable SignedWeight where
  isProbability_zero := by decide +kernel
  eq_self p probable := by
    cases p with
    | fraction value => exact Weight.comparable_rat.eq_self value probable
    | negativeZero => rfl
    | notANumber => cases probable
  eq_zero p probable := by
    cases p with
    | fraction value => exact Weight.comparable_rat.eq_zero value probable
    | negativeZero => decide +kernel
    | notANumber => cases probable
  strays_sum_nil := by decide +kernel

namespace ProbabilityTable

/-- Cells that are written twice, erased by either zero, or refused. -/
def assortedWrites : List (Nat × Nat × SignedWeight) :=
  [(0, 1, .fraction (1 / 4)), (1, 0, .fraction 1), (0, 0, .negativeZero), (0, 1, .fraction (3 / 4)),
    (1, 0, .negativeZero), (1, 1, .notANumber), (0, 1, .fraction (-1)), (2, 0, .fraction 1),
    (0, 2, .fraction 1), (1, 1, .fraction 1)]

theorem writeAll_agrees_assorted :
    ∃ dense sparse : ProbabilityTable SignedWeight, create .dense 2 2 = .ok dense ∧
      create .sparse 2 2 = .ok sparse ∧ 1 ≤ 2 ∧
        (dense.writeAll assortedWrites).1 = (sparse.writeAll assortedWrites).1 ∧
          AnswersAlike 2 2 (dense.writeAll assortedWrites).2 (sparse.writeAll assortedWrites).2 ∧
            (dense.writeAll assortedWrites).2.row 0 = [(1, .fraction (3 / 4))] ∧
              (dense.writeAll assortedWrites).2.get 1 0 = .ok .negativeZero ∧
                (sparse.writeAll assortedWrites).2.get 1 0 = .ok (.fraction 0) := by
  obtain ⟨dense, made⟩ :
      ∃ dense : ProbabilityTable SignedWeight, create .dense 2 2 = .ok dense := ⟨_, rfl⟩
  obtain ⟨sparse, made'⟩ :
      ∃ sparse : ProbabilityTable SignedWeight, create .sparse 2 2 = .ok sparse := ⟨_, rfl⟩
  obtain ⟨same, alike⟩ :=
    writeAll_agrees SignedWeight.comparable (by decide) made made' assortedWrites
  refine ⟨dense, sparse, made, made', by decide, same, alike, ?_, ?_, ?_⟩
  · cases made
    decide +kernel
  · cases made
    decide +kernel
  · cases made'
    decide +kernel

end ProbabilityTable

end TeamPlanning
