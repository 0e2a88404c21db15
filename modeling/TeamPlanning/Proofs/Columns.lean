import Mathlib.Data.List.Basic

/-! # Rows and columns

The parts of a joint word are a table with one row per stage and one column per agent. Taking the
columns of a table twice gives the table back. -/

set_option autoImplicit false

namespace TeamPlanning

variable {α : Type}

/-- The entries at one place of all rows. -/
def column (rows : List (List α)) (place : Nat) : List α := rows.filterMap (·[place]?)

theorem column_map {β : Type} (entryOf : α → β) (rows : List (List α)) (place : Nat) :
    column (rows.map (List.map entryOf)) place = (column rows place).map entryOf := by
  rw [column, column, List.filterMap_map, List.map_filterMap]
  refine congrArg (List.filterMap · rows) (funext fun row => ?_)
  exact List.getElem?_map

/-- The columns of one table are the rows of the other. -/
structure Transposed (rows columns : List (List α)) : Prop where
  wide : ∀ row ∈ rows, row.length = columns.length
  high : ∀ column ∈ columns, column.length = rows.length
  entry : ∀ (line place : Nat), (rows[line]?.bind (·[place]?)) = columns[place]?.bind (·[line]?)

theorem Transposed.symm {rows columns : List (List α)} (transposed : Transposed rows columns) :
    Transposed columns rows :=
  ⟨transposed.high, transposed.wide, fun line place => (transposed.entry place line).symm⟩

variable {rows : List (List α)} {place : Nat}

theorem column_cons {row : List α} (inside : place < row.length) :
    column (row :: rows) place = row[place] :: column rows place := by
  simp [column, inside]

theorem getElem?_column (wide : ∀ row ∈ rows, place < row.length) (line : Nat) :
    (column rows place)[line]? = rows[line]?.bind (·[place]?) := by
  induction rows generalizing line with
  | nil => rfl
  | cons row rows ih =>
      obtain ⟨inside, wide⟩ := List.forall_mem_cons.mp wide
      rw [column_cons inside]
      cases line with
      | zero => exact (List.getElem?_eq_getElem inside).symm
      | succ line => exact ih wide line

theorem length_column (wide : ∀ row ∈ rows, place < row.length) :
    (column rows place).length = rows.length := by
  induction rows with
  | nil => rfl
  | cons row rows ih =>
      obtain ⟨inside, wide⟩ := List.forall_mem_cons.mp wide
      rw [column_cons inside, List.length_cons, ih wide, List.length_cons]

theorem transposed_columns {width : Nat} (wide : ∀ row ∈ rows, row.length = width) :
    Transposed rows ((List.range width).map (column rows)) := by
  have inside : ∀ place, place < width → ∀ row ∈ rows, place < row.length :=
    fun place inside row member => by rw [wide row member]; exact inside
  refine ⟨fun row member => ?_, fun col member => ?_, fun line place => ?_⟩
  · rw [List.length_map, List.length_range, wide row member]
  · obtain ⟨place, listed, rfl⟩ := List.mem_map.mp member
    exact length_column (inside place (List.mem_range.mp listed))
  · by_cases here : place < width
    · rw [List.getElem?_map, List.getElem?_range here, Option.map_some, Option.bind_some,
        getElem?_column (inside place here)]
    · rw [List.getElem?_eq_none (l := (List.range width).map (column rows)) (by simpa using here)]
      cases found : rows[line]? with
      | none => rfl
      | some row =>
          have length := wide row (List.mem_of_getElem? found)
          exact List.getElem?_eq_none (by omega)

theorem Transposed.column_eq {columns : List (List α)} {entries : List α}
    (transposed : Transposed rows columns) (found : columns[place]? = some entries) :
    column rows place = entries := by
  have inside : place < columns.length := (List.getElem?_eq_some_iff.mp found).1
  refine List.ext_getElem? fun line => ?_
  rw [getElem?_column fun row member => by rw [transposed.wide row member]; exact inside]
  rw [transposed.entry, found]
  rfl

end TeamPlanning
