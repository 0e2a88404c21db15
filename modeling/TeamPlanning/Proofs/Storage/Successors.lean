import TeamPlanning.Proofs.Storage.Keys

/-! # Successors read off rows

A model knows its successors from the rows of its transitions, without a scan of all states. The row
lists what a scan would find, in the order of the scan, in either storage and after any writes. -/

set_option autoImplicit false

namespace TeamPlanning

variable {W : Type} [Weight W]

namespace ProbabilityTable

variable {rows cols row col : Nat} {storage : Storage} {table table' : ProbabilityTable W} {p : W}

/-- A sparse table holds no cells but those above zero, in the order of columns. -/
def Supported : ProbabilityTable W → Prop
  | .dense _ _ => True
  | .sparse _ lines => ∀ line ∈ lines,
      Sparse.Ascending line ∧ ∀ entry ∈ line, Weight.positive entry.2 = true

theorem supported_of_create (created : create storage rows cols = .ok table) : table.Supported := by
  cases storage with
  | dense =>
      obtain ⟨cells, _, made⟩ := bind_eq_ok_iff.mp created
      cases made
      trivial
  | sparse =>
      cases created
      intro line member
      obtain ⟨_, rfl⟩ := Array.mem_replicate.mp member
      exact ⟨List.Pairwise.nil, List.forall_mem_nil _⟩

theorem Supported.set (laws : Weight.Comparable W) (supported : table.Supported)
    (written : table.set row col p = .ok table') : table'.Supported := by
  unfold ProbabilityTable.set at written
  split at written
  · cases written
  · split at written
    · cases written
    · rename_i probable
      have probable : Weight.isProbability p = true := by simpa using probable
      cases table with
      | dense =>
          obtain ⟨place, _, written⟩ := bind_eq_ok_iff.mp written
          cases written
          trivial
      | sparse cols lines =>
          cases written
          refine forall_mem_modify supported fun line held => ?_
          obtain ⟨sorted, above⟩ := held
          split
          · exact ⟨Sparse.ascending_erase sorted col,
              fun entry member => above entry (List.mem_of_mem_filter member)⟩
          · rename_i unequal
            refine ⟨Sparse.ascending_insert sorted col p, fun entry member => ?_⟩
            rcases Sparse.mem_insert member with rfl | held
            · rw [laws.eq_zero p probable] at unequal
              simpa using unequal
            · exact above entry held

theorem condense_some (cols : Nat) (cell : Nat → W) :
    condense cols (fun col => some (cell col)) =
      ((List.range cols).map fun col => (col, cell col)).filter (Weight.positive ·.2) := by
  rw [condense, ← List.filterMap_eq_filter, List.filterMap_map]
  refine List.filterMap_congr fun col _ => ?_
  cases positive : Weight.positive (cell col) with
  | true => simp [Option.filter, Option.guard, positive]
  | false => simp [Option.filter, Option.guard, positive]

/-- A row lists what a scan of its cells finds above zero. -/
theorem Framed.row_eq (laws : Weight.Comparable W) (framed : table.Framed rows cols storage)
    (supported : table.Supported) (inside : row < rows) :
    table.row row = condense cols fun col => some (table.cell row col) := by
  cases framed with
  | @dense cells filled small =>
      by_cases inhabited : 0 < cols
      · rw [ProbabilityTable.row, if_pos (by rwa [filled, Nat.mul_div_cancel rows inhabited])]
        refine List.filterMap_congr fun col listed => ?_
        have within := List.mem_range.mp listed
        have bounded := mul_add_lt inside within
        simp only [cell_of_get (get_dense within (bounded.trans small)),
          Array.getElem?_eq_getElem (by omega : row * cols + col < cells.size), Option.getD_some]
        cases positive : Weight.positive cells[row * cols + col] <;> simp [Option.filter, positive]
      · obtain rfl : cols = 0 := by omega
        rw [ProbabilityTable.row, Nat.div_zero, if_neg (Nat.not_lt_zero row)]
        rfl
  | @sparse lines long within =>
      obtain ⟨line, held⟩ : ∃ line, lines[row]? = some line :=
        ⟨_, Array.getElem?_eq_getElem (by omega)⟩
      have member := Array.mem_of_getElem? held
      obtain ⟨sorted, above⟩ := supported line member
      rw [ProbabilityTable.row, held, Option.getD_some]
      refine Sparse.eq_of_get? sorted (ascending_condense cols _) fun col => ?_
      rw [get?_condense, cell_of_get (get_sparse ..), held, Option.bind_some]
      cases found : Sparse.get? line col with
      | none => simp [Option.filter, laws.positive_zero]
      | some p =>
          have listed := (Sparse.mem_iff_get? sorted).mpr found
          rw [if_pos (within line member _ listed), Option.getD_some, Option.filter,
            if_pos (above _ listed)]

end ProbabilityTable

namespace Model

variable {storage : Storage} {model : Model W}

theorem fillRow_supported (laws : Weight.Comparable W) {table table' : ProbabilityTable W} {row : Nat}
    {distribution : List W} (supported : table.Supported)
    (filled : fillRow table row distribution = .ok table') : table'.Supported :=
  foldlM_keeps ProbabilityTable.Supported (fun _ _ _ held written => held.set laws written) supported
    filled

theorem supported_of_random (laws : Weight.Comparable W) {states : Nat} {alphabets : List Alphabet}
    {draws : Nat → Nat} (drawn : random states alphabets storage draws = .ok model) :
    model.transitions.Supported := by
  obtain ⟨blank, created, drawn⟩ := bind_eq_ok_iff.mp drawn
  obtain ⟨filled, folded, drawn⟩ := bind_eq_ok_iff.mp drawn
  cases drawn
  obtain ⟨_, _, _, _, _, _, first, _, rfl⟩ := create_eq_ok created
  have supported : filled.transitions.Supported := by
    apply foldlM_keeps (fun model : Model W => model.transitions.Supported) ?_
      (ProbabilityTable.supported_of_create first) folded
    intro model row next supported written
    obtain ⟨transitions, first, written⟩ := bind_eq_ok_iff.mp written
    obtain ⟨observations, _, written⟩ := bind_eq_ok_iff.mp written
    cases written
    exact fillRow_supported laws supported first
  exact supported

theorem Made.supported (laws : Weight.Comparable W) (made : Made storage model) :
    model.transitions.Supported := by
  induction made with
  | created created =>
      obtain ⟨_, _, _, _, _, _, first, _, rfl⟩ := create_eq_ok created
      exact ProbabilityTable.supported_of_create first
  | drawn drawn => exact supported_of_random laws drawn
  | @written model write _ ih =>
      have step := model.written write
      generalize (model.write write).2 = next at step ⊢
      cases step with
      | transitions set => exact ih.set laws set
      | _ => exact ih

theorem Made.writeAll (made : Made storage model) (writes : List (Write W)) :
    Made storage (model.writeAll writes).2 := by
  induction writes generalizing model with
  | nil => exact made
  | cons write writes ih => exact ih (made.written write)

/-- The successors of a state, whether or not there is such a state, are what a scan of all states
finds, in the same order. -/
theorem Made.successors_eq (laws : Weight.Comparable W) (made : Made storage model)
    (state jointAction : Nat) :
    model.successors state jointAction =
      ((List.range model.states).map fun next =>
        (next, model.transition state jointAction next)).filter (Weight.positive ·.2) := by
  have framed := made.framed
  rw [← ProbabilityTable.condense_some, Model.successors]
  cases found : model.row jointAction state with
  | error fault =>
      refine (List.filterMap_eq_nil_iff.mpr fun next _ => ?_).symm
      simp [Model.transition, found, Option.filter, laws.positive_zero]
  | ok row =>
      have same : model.transition state jointAction = model.transitions.cell row := by
        funext next
        rw [Model.transition, found]
      rw [same]
      exact framed.transitions.row_eq laws (made.supported laws) (row_lt framed.small found)

end Model

end TeamPlanning
