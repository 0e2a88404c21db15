import Mathlib.Data.List.Sort
import TeamPlanning.ProbabilityTable
import TeamPlanning.Proofs.JointSymbols
import TeamPlanning.Weight.Rational

/-! # Tables in two storages

A dense and a sparse table that were made with the same shape and written alike. Every line of the
sparse one lists the cells above zero of a row of the dense one, so both tables answer alike. They
differ in one thing: without columns the dense table counts no rows. -/

set_option autoImplicit false

namespace TeamPlanning

/-- The comparisons that both storages rest on. Floating point numbers obey them too: zero is a
probability, no probability is not a number, and a sum of nothing is far from one. -/
structure Weight.Comparable (W : Type) [Weight W] : Prop where
  isProbability_zero : Weight.isProbability (Weight.zero : W) = true
  eq_self : ∀ p : W, Weight.isProbability p = true → Weight.eq p p = true
  eq_zero : ∀ p : W, Weight.isProbability p = true → Weight.eq p Weight.zero = !Weight.positive p
  strays_sum_nil : Weight.strays (Weight.sum ([] : List W)) = true

theorem Weight.comparable_rat : Weight.Comparable Rat where
  isProbability_zero := by decide +kernel
  eq_self p _ := beq_self_eq_true p
  eq_zero p probable := by
    have nonneg : 0 ≤ p := by
      simp only [Weight.isProbability, Bool.and_eq_true] at probable
      exact of_decide_eq_true probable.1
    rcases lt_or_eq_of_le nonneg with above | rfl
    · have unequal : (p == 0) = false := beq_eq_false_iff_ne.mpr (ne_of_gt above)
      have positive : Weight.positive p = true := decide_eq_true above
      rw [positive]
      exact unequal
    · decide +kernel
  strays_sum_nil := by decide +kernel

theorem Weight.Comparable.positive_zero {W : Type} [Weight W] (laws : Weight.Comparable W) :
    Weight.positive (Weight.zero : W) = false := by
  have unequal := laws.eq_zero _ laws.isProbability_zero
  rw [laws.eq_self _ laws.isProbability_zero] at unequal
  simpa using unequal.symm

theorem forM_congr {ε α : Type} {visit visit' : α → Except ε Unit} {items : List α}
    (same : ∀ item ∈ items, visit item = visit' item) : items.forM visit = items.forM visit' := by
  induction items with
  | nil => rfl
  | cons item items ih =>
      obtain ⟨first, others⟩ := List.forall_mem_cons.mp same
      exact congrArg₂ (· >>= ·) first (funext fun _ => ih others)

namespace Sparse

variable {β : Type} {row other : List (Nat × β)} {key : Nat} {value : β}

theorem mem_iff_get? (sorted : Ascending row) : (key, value) ∈ row ↔ get? row key = some value := by
  induction row with
  | nil => simp [get?]
  | cons head row ih =>
      obtain ⟨above, sorted⟩ := List.pairwise_cons.mp sorted
      rw [get?, List.mem_cons, ih sorted]
      by_cases here : head.1 = key
      · have absent : get? row key ≠ some value := fun found =>
          absurd (above _ ((ih sorted).mpr found)) (by simp [here])
        rw [if_pos here, Option.some.injEq]
        exact ⟨fun listed => listed.elim (fun same => same ▸ rfl) (fun found => absurd found absent),
          fun same => .inl (Prod.ext here.symm same.symm)⟩
      · rw [if_neg here]
        exact ⟨fun listed => listed.elim (fun same => absurd (congrArg Prod.fst same).symm here) id,
          .inr⟩

/-- The entries of an ascending row are known by its keys. -/
theorem eq_of_get? (sorted : Ascending row) (sorted' : Ascending other)
    (same : ∀ key, get? row key = get? other key) : row = other := by
  have irreflexive : Std.Irrefl fun first second : Nat × β => first.1 < second.1 :=
    ⟨fun _ => lt_irrefl _⟩
  have antisymmetric : Std.Antisymm fun first second : Nat × β => first.1 < second.1 :=
    ⟨fun _ _ below above => absurd below (lt_asymm above)⟩
  refine sorted.eq_of_mem_iff sorted' fun entry => ?_
  rw [mem_iff_get? sorted, mem_iff_get? sorted', same]

end Sparse

namespace ProbabilityTable

variable {W : Type} [Weight W]

/-- The cells above zero among the first cells of a row, by column. -/
def condense (cols : Nat) (cell : Nat → Option W) : List (Nat × W) :=
  (List.range cols).filterMap fun col => ((cell col).filter Weight.positive).map (col, ·)

section Condense

variable {cols : Nat} {cell : Nat → Option W}

theorem mem_condense_iff {col : Nat} {p : W} :
    (col, p) ∈ condense cols cell ↔ col < cols ∧ (cell col).filter Weight.positive = some p := by
  rw [condense, List.mem_filterMap]
  constructor
  · intro listed
    obtain ⟨place, inside, found⟩ := listed
    obtain ⟨held, kept, same⟩ := Option.map_eq_some_iff.mp found
    cases same
    exact ⟨List.mem_range.mp inside, kept⟩
  · intro given
    exact ⟨col, List.mem_range.mpr given.1, by rw [given.2]; rfl⟩

theorem ascending_condense (cols : Nat) (cell : Nat → Option W) :
    Sparse.Ascending (condense cols cell) := by
  refine List.Pairwise.filterMap _ (fun first second below => ?_) List.pairwise_lt_range
  intro entry found entry' found'
  obtain ⟨_, _, rfl⟩ := Option.map_eq_some_iff.mp found
  obtain ⟨_, _, rfl⟩ := Option.map_eq_some_iff.mp found'
  exact below

theorem get?_condense (cols : Nat) (cell : Nat → Option W) (col : Nat) :
    Sparse.get? (condense cols cell) col =
      if col < cols then (cell col).filter Weight.positive else none := by
  ext p
  rw [← Sparse.mem_iff_get? (ascending_condense cols cell), mem_condense_iff]
  by_cases inside : col < cols
  · simp [inside]
  · simp [inside]

theorem condense_congr {cell' : Nat → Option W} (same : ∀ col < cols, cell col = cell' col) :
    condense cols cell = condense cols cell' :=
  List.filterMap_congr fun col inside => by rw [same col (List.mem_range.mp inside)]

/-- Writing to a line of a sparse table. -/
theorem condense_update {col : Nat} {p : W}
    (compared : Weight.eq p Weight.zero = !Weight.positive p) (within : col < cols) :
    (if Weight.eq p Weight.zero then Sparse.erase (condense cols cell) col
      else Sparse.insert (condense cols cell) col p) =
        condense cols fun other => if col = other then some p else cell other := by
  have sorted := ascending_condense cols cell
  cases positive : Weight.positive p with
  | true =>
      rw [compared, positive, if_neg (by simp)]
      refine Sparse.eq_of_get? (Sparse.ascending_insert sorted col p) (ascending_condense _ _)
        fun key => ?_
      rw [Sparse.get?_insert, get?_condense, get?_condense]
      by_cases here : col = key
      · subst here
        rw [if_pos rfl, if_pos within, if_pos rfl, Option.filter, if_pos positive]
      · rw [if_neg here, if_neg here]
  | false =>
      rw [compared, positive, if_pos (by simp)]
      refine Sparse.eq_of_get? (Sparse.ascending_erase sorted col) (ascending_condense _ _)
        fun key => ?_
      rw [Sparse.get?_erase, get?_condense, get?_condense]
      by_cases here : col = key
      · subst here
        rw [if_pos rfl, if_pos within, if_pos rfl, Option.filter, if_neg (by simp [positive])]
      · rw [if_neg here, if_neg here]

end Condense

/-! ## Positions of cells -/

theorem position_eq_ok {rows cols row col : Nat} (small : rows * cols < wordBound)
    (inside : row < rows) (within : col < cols) :
    position cols row col = .ok (row * cols + col) ∧ row * cols + col < rows * cols := by
  have below := mul_add_lt inside within
  exact ⟨position_of_lt (below.trans small), below⟩

/-- Different rows have no cell in common. -/
theorem row_eq_of_place {cols row row' col col' : Nat} (within : col < cols) (within' : col' < cols)
    (same : row * cols + col = row' * cols + col') : row = row' := by
  have inhabited : 0 < cols := Nat.zero_lt_of_lt within
  have quotient := congrArg (· / cols) same
  simpa [Nat.mul_comm _ cols, Nat.mul_add_div inhabited, Nat.div_eq_of_lt within,
    Nat.div_eq_of_lt within'] using quotient

/-- A position that fits is past the cells of a dense table. -/
theorem get_dense_below {rows cols row col : Nat} {cells : Array W}
    (filled : cells.size = rows * cols) (beyond : rows ≤ row)
    (fits : row * cols + col < wordBound) :
    get (.dense cols cells) row col = .ok Weight.zero := by
  by_cases within : col < cols
  · have past : rows * cols ≤ row * cols := Nat.mul_le_mul_right cols beyond
    rw [get_dense within fits, Array.getElem?_eq_none (by omega), Option.getD_none]
  · exact get_dense_beyond (Nat.le_of_not_lt within)

theorem get_sparse_below {row : Nat} {lines : Array (List (Nat × W))} (beyond : lines.size ≤ row)
    (cols col : Nat) : get (.sparse cols lines) row col = .ok Weight.zero := by
  rw [get_sparse, Array.getElem?_eq_none beyond]
  rfl

/-! ## Tables of one shape -/

/-- The tables have the given shape, and every line of the sparse one lists the cells above zero of a
row of the dense one. -/
inductive Mirrors (rows cols : Nat) : ProbabilityTable W → ProbabilityTable W → Prop where
  | intro {cells : Array W} {lines : Array (List (Nat × W))}
      (filled : cells.size = rows * cols) (small : rows * cols < wordBound)
      (long : lines.size = rows) (probable : ∀ p ∈ cells, Weight.isProbability p = true)
      (same : ∀ row < rows, lines[row]? = some (condense cols fun col => cells[row * cols + col]?)) :
      Mirrors rows cols (.dense cols cells) (.sparse cols lines)

variable {rows cols : Nat} {dense sparse : ProbabilityTable W}

theorem mirrors_of_create (laws : Weight.Comparable W)
    (made : create .dense rows cols = .ok dense) (made' : create .sparse rows cols = .ok sparse) :
    Mirrors rows cols dense sparse := by
  obtain ⟨count, counted, made⟩ := bind_eq_ok_iff.mp made
  obtain ⟨product, small⟩ := Bounded.prod_eq_ok counted
  obtain rfl : count = rows * cols := by simpa using product
  cases made
  cases made'
  refine .intro (by simp) small (by simp) ?_ fun row inside => ?_
  · intro p member
    obtain ⟨_, rfl⟩ := Array.mem_replicate.mp member
    exact laws.isProbability_zero
  · have zero := laws.positive_zero
    have blank : condense cols
        (fun col => (Array.replicate (rows * cols) (Weight.zero : W))[row * cols + col]?) = [] := by
      refine List.filterMap_eq_nil_iff.mpr fun col within => ?_
      have bounded := mul_add_lt inside (List.mem_range.mp within)
      simp [bounded, zero]
    rw [blank, Array.getElem?_replicate, if_pos inside]

/-- Tables that mirror each other do so after the same cell is written in both. -/
theorem Mirrors.put (laws : Weight.Comparable W) {cells : Array W} {lines : Array (List (Nat × W))}
    (mirrors : Mirrors rows cols (.dense cols cells) (.sparse cols lines)) {row col : Nat} {p : W}
    (inside : row < rows) (within : col < cols) (probable : Weight.isProbability p = true) :
    Mirrors rows cols (.dense cols (cells.setIfInBounds (row * cols + col) p))
      (.sparse cols (lines.modify row fun line =>
        if Weight.eq p Weight.zero then Sparse.erase line col else Sparse.insert line col p)) := by
  obtain ⟨filled, small, long, known, same⟩ := mirrors
  have bounded := mul_add_lt inside within
  refine .intro (by simpa using filled) small (by simpa using long) ?_ fun row' inside' => ?_
  · intro q member
    rcases Array.mem_or_eq_of_mem_setIfInBounds member with held | rfl
    · exact known q held
    · exact probable
  · rw [Array.getElem?_modify, same row' inside']
    by_cases here : row = row'
    · subst here
      rw [if_pos rfl, Option.map_some, Option.some.injEq,
        condense_update (laws.eq_zero p probable) within]
      refine condense_congr fun col' within' => ?_
      by_cases there : col = col'
      · subst there
        have held : row * cols + col < cells.size := by omega
        simp [held]
      · have apart : row * cols + col ≠ row * cols + col' := by omega
        rw [if_neg there, Array.getElem?_setIfInBounds_ne apart]
    · rw [if_neg here, Option.some.injEq]
      refine condense_congr fun col' within' => ?_
      have apart : row * cols + col ≠ row' * cols + col' := fun same =>
        here (row_eq_of_place within within' same)
      rw [Array.getElem?_setIfInBounds_ne apart]

namespace Mirrors

variable (mirrors : Mirrors rows cols dense sparse)
include mirrors

theorem row_eq {row : Nat} (inside : row < rows) : dense.row row = sparse.row row := by
  obtain ⟨filled, small, long, probable, same⟩ := mirrors
  rename_i cells lines
  rw [ProbabilityTable.row, ProbabilityTable.row, same row inside, Option.getD_some]
  by_cases inhabited : 0 < cols
  · rw [filled, Nat.mul_div_cancel rows inhabited, if_pos inside]
    refine List.filterMap_congr fun col _ => ?_
    simp only
    cases cells[row * cols + col]? with
    | none => rfl
    | some p => cases positive : Weight.positive p <;> simp [Option.filter, positive]
  · obtain rfl : cols = 0 := by omega
    rw [Nat.div_zero, if_neg (Nat.not_lt_zero row)]
    rfl

/-- In a row of theirs both tables can be read. -/
theorem get_eq (laws : Weight.Comparable W) {row : Nat} (inside : row < rows) (col : Nat) :
    ∃ p q, dense.get row col = .ok p ∧ sparse.get row col = .ok q ∧ Weight.eq p q = true := by
  obtain ⟨filled, small, long, probable, same⟩ := mirrors
  rename_i cells lines
  by_cases within : col < cols
  · have bounded := mul_add_lt inside within
    refine ⟨_, _, get_dense within (bounded.trans small), get_sparse .., ?_⟩
    rw [same row inside, Option.bind_some, get?_condense, if_pos within,
      Array.getElem?_eq_getElem (by omega : row * cols + col < cells.size)]
    have probable := probable _ (Array.getElem_mem (by omega : row * cols + col < cells.size))
    cases positive : Weight.positive cells[row * cols + col] with
    | true => simpa [Option.filter, positive] using laws.eq_self _ probable
    | false => simpa [Option.filter, positive] using laws.eq_zero _ probable
  · refine ⟨_, _, get_dense_beyond (Nat.le_of_not_lt within), get_sparse .., ?_⟩
    rw [same row inside, Option.bind_some, get?_condense, if_neg within]
    exact laws.eq_self _ laws.isProbability_zero

theorem cell_eq (laws : Weight.Comparable W) {row : Nat} (inside : row < rows) (col : Nat) :
    Weight.eq (dense.cell row col) (sparse.cell row col) = true := by
  obtain ⟨p, q, read, read', same⟩ := mirrors.get_eq laws inside col
  rw [cell_of_get read, cell_of_get read']
  exact same

/-- Rows are counted alike unless there are no columns. -/
theorem rows_eq : dense.rows = (if 0 < cols then rows else 0) ∧ sparse.rows = rows := by
  obtain ⟨filled, small, long, probable, same⟩ := mirrors
  refine ⟨?_, long⟩
  rw [ProbabilityTable.rows, filled]
  by_cases inhabited : 0 < cols
  · rw [if_pos inhabited, Nat.mul_div_cancel rows inhabited]
  · obtain rfl : cols = 0 := by omega
    rw [if_neg inhabited, Nat.div_zero]

theorem validate_eq (inhabited : 0 < cols ∨ rows = 0) : dense.validate = sparse.validate := by
  obtain ⟨counted, counted'⟩ := mirrors.rows_eq
  have counted : dense.rows = rows := by
    rw [counted]
    rcases inhabited with inhabited | rfl
    · exact if_pos inhabited
    · exact ite_self 0
  rw [validate, validate, counted, counted']
  refine forM_congr fun row listed => ?_
  rw [mirrors.row_eq (List.mem_range.mp listed)]

/-- Without columns the dense table passes, and the sparse one fails if it has a row. -/
theorem validate_of_no_columns (laws : Weight.Comparable W) (empty : cols = 0)
    (inhabited : 0 < rows) :
    dense.validate = .ok () ∧ ∃ fault, sparse.validate = .error fault := by
  obtain ⟨counted, counted'⟩ := mirrors.rows_eq
  subst empty
  constructor
  · rw [validate, counted]
    rfl
  · cases passed : sparse.validate with
    | error fault => exact ⟨fault, rfl⟩
    | ok _ =>
        rw [validate, counted', forM_eq_ok_iff] at passed
        have first := passed 0 (List.mem_range.mpr inhabited)
        rw [← mirrors.row_eq inhabited] at first
        obtain ⟨filled, small, long, probable, same⟩ := mirrors
        rw [ProbabilityTable.row, Nat.div_zero, if_neg (Nat.not_lt_zero 0), List.map_nil,
          if_pos laws.strays_sum_nil] at first
        cases first

/-- Writing to a row of both tables: both take the cell and are alike again, or both refuse with the
same kind of fault. It is the very same fault unless there are no columns: the fault says how many
rows there are. -/
theorem set_alike (laws : Weight.Comparable W) {row : Nat} (inside : row < rows) (col : Nat) (p : W) :
    (0 < cols ∧ ∃ dense' sparse', dense.set row col p = .ok dense' ∧
        sparse.set row col p = .ok sparse' ∧ Mirrors rows cols dense' sparse') ∨
      ∃ fault fault', dense.set row col p = .error fault ∧ sparse.set row col p = .error fault' ∧
        fault.kind = fault'.kind ∧ (fault = fault' ↔ 0 < cols) := by
  obtain ⟨counted, counted'⟩ := mirrors.rows_eq
  have wide : dense.cols = cols ∧ sparse.cols = cols := by
    cases mirrors
    exact ⟨rfl, rfl⟩
  unfold ProbabilityTable.set
  rw [counted, counted', wide.1, wide.2]
  by_cases within : col < cols
  · have inhabited : 0 < cols := Nat.zero_lt_of_lt within
    have known : ¬ (rows ≤ row ∨ cols ≤ col) := by omega
    rw [if_pos inhabited, if_neg known, if_neg known]
    cases probable : Weight.isProbability p with
    | false => exact .inr ⟨_, _, rfl, rfl, rfl, iff_of_true rfl inhabited⟩
    | true =>
        refine .inl ⟨inhabited, ?_⟩
        obtain ⟨filled, small, long, known, same⟩ := mirrors
        have placed := (position_eq_ok small inside within).1
        exact ⟨_, _, bind_of_eq_ok placed _, rfl,
          .put laws (.intro filled small long known same) inside within probable⟩
  · refine .inr ⟨_, _, if_pos (.inr (by omega)), if_pos (.inr (by omega)), rfl, ?_⟩
    by_cases inhabited : 0 < cols
    · simp [inhabited]
    · simp [inhabited]
      omega

end Mirrors

end ProbabilityTable

end TeamPlanning
