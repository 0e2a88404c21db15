import TeamPlanning.Proofs.SparseBeliefs

/-! # What an update leaves

An update answers with the mass that it keeps. If it keeps any, the belief is a distribution
afterwards; if it keeps none, there is no mass left in the belief. What the belief held before only
decides which of the two it is. -/

set_option autoImplicit false

namespace TeamPlanning.Belief

variable {belief : Belief Rat}

/-! ## The entries of a belief -/

/-- The weights that a belief holds, in the order of states. -/
def entries : Belief Rat → List Rat
  | .dense entries => entries
  | .sparse _ entries => entries.map (·.2)

/-- States are held in order and within the size, each once. -/
def Tidy : Belief Rat → Prop
  | .dense _ => True
  | .sparse size entries => Sparse.Ascending entries ∧ ∀ entry ∈ entries, entry.1 < size

theorem mem_entries_of_support {entry : Nat × Rat} (member : entry ∈ belief.support) :
    entry.2 ∈ belief.entries := by
  cases belief with
  | dense entries =>
      obtain ⟨pair, listed, rfl⟩ := List.mem_map.mp (List.mem_of_mem_filter member)
      exact List.fst_mem_of_mem_zipIdx listed
  | sparse size entries => exact List.mem_map_of_mem member

theorem get_eq_zero_or_mem (belief : Belief Rat) (state : Nat) :
    belief.get state = 0 ∨ belief.get state ∈ belief.entries := by
  cases belief with
  | dense entries =>
      rw [get]
      cases found : entries[state]? with
      | none => exact .inl rfl
      | some p => exact .inr (List.mem_of_getElem? found)
  | sparse size entries =>
      rw [get]
      induction entries with
      | nil => exact .inl rfl
      | cons entry entries ih =>
          rw [Sparse.get?]
          split
          · exact .inr List.mem_cons_self
          · exact ih.imp id (List.mem_cons_of_mem _)

/-- Entries that are zero are not listed, and do not count. -/
theorem mass_eq_sum (belief : Belief Rat) : belief.mass = belief.entries.sum := by
  rw [mass, Weight.sum_eq]
  cases belief with
  | sparse size entries => rfl
  | dense entries =>
      have listed : (entries.zipIdx.map fun pair => (pair.2, pair.1)).map (·.2) = entries := by
        rw [List.map_map]
        exact List.zipIdx_map_fst 0 entries
      refine (sum_map_filter fun entry _ dropped => ?_).trans (congrArg List.sum listed)
      simpa [Weight.eq] using dropped

theorem Tidy.sum_toDense (tidy : belief.Tidy) : belief.toDense.sum = belief.entries.sum := by
  cases belief with
  | dense entries => rfl
  | sparse size entries =>
      obtain ⟨sorted, below⟩ := tidy
      refine Eq.trans ?_ (Sparse.sum_gathered below)
      simp only [Sparse.gathered_of_ascending sorted]
      rfl

theorem validate_of_probable (inhabited : 0 < belief.size)
    (probable : ∀ p ∈ belief.entries, 0 ≤ p ∧ p ≤ 1) :
    belief.validate = if Weight.isUnit belief.entries.sum then .ok ()
      else .error (.unsound (.beliefSum (Weight.text belief.entries.sum))) := by
  have found : (belief.support.find? fun entry =>
      Weight.isNaN entry.2 || Weight.lt entry.2 Weight.zero || Weight.lt Weight.one entry.2) =
        none := by
    refine List.find?_eq_none.mpr fun entry member => ?_
    obtain ⟨low, high⟩ := probable _ (mem_entries_of_support member)
    simp [Weight.isNaN, low, high]
  rw [validate, if_neg (Nat.ne_of_gt inhabited), found, mass_eq_sum]

/-! ## One update -/

/-- A distribution, and found to be one. -/
structure Normalized (belief : Belief Rat) : Prop where
  probable : ∀ state, 0 ≤ belief.get state ∧ belief.get state ≤ 1
  total : belief.toDense.sum = 1
  valid : belief.validate = .ok ()

/-- No state has any mass, and the check complains of it. -/
structure Emptied (belief : Belief Rat) : Prop where
  zero : ∀ state, belief.get state = 0
  invalid : belief.validate = .error (.unsound (.beliefSum (Weight.text (0 : Rat))))

/-- An answer over some number of states: the mass kept, and the belief that it was normalized to. -/
structure Settled (size : Nat) (answer : Rat × Belief Rat) : Prop where
  size : answer.2.size = size
  nonneg : 0 ≤ answer.1
  normalized : 0 < answer.1 → answer.2.Normalized
  emptied : answer.1 = 0 → answer.2.Emptied

theorem normalized_of_entries (inhabited : 0 < belief.size) (tidy : belief.Tidy)
    (probable : ∀ p ∈ belief.entries, 0 ≤ p ∧ p ≤ 1) (total : belief.entries.sum = 1) :
    belief.Normalized where
  probable state := by
    rcases belief.get_eq_zero_or_mem state with none | held
    · rw [none]
      exact ⟨le_refl 0, zero_le_one⟩
    · exact probable _ held
  total := tidy.sum_toDense.trans total
  valid := by
    have unit : Weight.isUnit (1 : Rat) = true := by decide +kernel
    rw [validate_of_probable inhabited probable, total, if_pos unit]

theorem emptied_of_entries (inhabited : 0 < belief.size) (zeros : ∀ p ∈ belief.entries, p = 0) :
    belief.Emptied where
  zero state := (belief.get_eq_zero_or_mem state).elim id (zeros _)
  invalid := by
    have probable : ∀ p ∈ belief.entries, 0 ≤ p ∧ p ≤ 1 := fun p member => by
      rw [zeros p member]
      exact ⟨le_refl 0, zero_le_one⟩
    have far : Weight.isUnit (0 : Rat) = false := by decide +kernel
    rw [validate_of_probable inhabited probable, List.sum_eq_zero zeros, far]
    rfl

/-- Shares of a positive total are probabilities that sum to one. -/
theorem normalize_shares {kept : List Rat} (nonneg : ∀ p ∈ kept, 0 ≤ p) (some : 0 < kept.sum) :
    (∀ p ∈ kept.map (normalize kept.sum), 0 ≤ p ∧ p ≤ 1) ∧
      (kept.map (normalize kept.sum)).sum = 1 := by
  have share : normalize kept.sum = fun p => p * kept.sum⁻¹ := funext fun p =>
    (if_pos ((Weight.positive_iff _).mpr some)).trans (div_eq_mul_inv p kept.sum)
  rw [share]
  constructor
  · intro p member
    obtain ⟨q, listed, rfl⟩ := List.mem_map.mp member
    have part : q ≤ kept.sum := List.single_le_sum nonneg q listed
    rw [← div_eq_mul_inv]
    exact ⟨div_nonneg (nonneg q listed) (le_of_lt some), (div_le_one some).mpr part⟩
  · rw [List.sum_map_mul_right, List.map_id', mul_inv_cancel₀ (ne_of_gt some)]

/-- Both kinds of beliefs normalize what they keep, and only that: nothing is left of the entries
before. -/
theorem adopt_shares (belief : Belief Rat) {mass : List (Nat × Rat)}
    (sorted : Sparse.Ascending mass) (nonneg : ∀ entry ∈ mass, 0 ≤ entry.2) :
    ∃ kept : List Rat, (∀ p ∈ kept, 0 ≤ p) ∧ (belief.adopt mass).1 = kept.sum ∧
      (belief.adopt mass).2.entries = kept.map (normalize kept.sum) ∧
        (belief.adopt mass).2.Tidy ∧ (belief.adopt mass).2.size = belief.size := by
  cases belief with
  | dense entries =>
      refine ⟨(List.range entries.length).map fun state =>
        (Sparse.get? mass state).getD Weight.zero, ?_, ?_, ?_, trivial, by simp [adopt, size]⟩
      · intro p member
        obtain ⟨state, _, rfl⟩ := List.mem_map.mp member
        exact get?_nonneg nonneg state
      · simp [adopt]
      · simp [adopt, Belief.entries]
  | sparse size entries =>
      refine ⟨(mass.filter fun entry =>
        decide (entry.1 < size) && Weight.lt Weight.tolerance entry.2).map (·.2),
        ?_, ?_, ?_, ⟨?_, ?_⟩, rfl⟩
      · intro p member
        obtain ⟨entry, listed, rfl⟩ := List.mem_map.mp member
        exact nonneg entry (List.mem_of_mem_filter listed)
      · simp [adopt]
      · simp [adopt, Belief.entries]
      · rw [Sparse.Ascending, List.pairwise_map]
        exact List.Pairwise.filter _ sorted
      · intro entry member
        obtain ⟨other, listed, rfl⟩ := List.mem_map.mp member
        have kept := (List.mem_filter.mp listed).2
        rw [Bool.and_eq_true] at kept
        exact of_decide_eq_true kept.1

theorem adopt_settled (inhabited : 0 < belief.size) {mass : List (Nat × Rat)}
    (sorted : Sparse.Ascending mass) (nonneg : ∀ entry ∈ mass, 0 ≤ entry.2) :
    Settled belief.size (belief.adopt mass) := by
  obtain ⟨kept, held, answered, entries, tidy, sized⟩ := belief.adopt_shares sorted nonneg
  have inhabited' : 0 < (belief.adopt mass).2.size := sized ▸ inhabited
  constructor
  case size => exact sized
  case nonneg => exact answered ▸ List.sum_nonneg held
  case normalized =>
    intro some
    rw [answered] at some
    obtain ⟨probable, total⟩ := normalize_shares held some
    rw [← entries] at probable total
    exact normalized_of_entries inhabited' tidy probable total
  case emptied =>
    intro none
    rw [answered] at none
    refine emptied_of_entries inhabited' fun p member => ?_
    rw [entries, none] at member
    obtain ⟨q, listed, rfl⟩ := List.mem_map.mp member
    rw [List.all_zero_of_le_zero_le_of_sum_eq_zero held none listed]
    rfl

/-! ## Any updates -/

/-- What a belief is updated by. -/
structure Step where
  jointAction : Nat
  jointObservation : Nat
  event : Bool

def step (process : DecisionProcess Rat) (belief : Belief Rat) (step : Step) : Rat × Belief Rat :=
  belief.update process step.jointAction step.jointObservation step.event

/-- The answers to updates that are made one after the other, whatever each of them answers. -/
def updates (process : DecisionProcess Rat) : Belief Rat → List Step → List (Rat × Belief Rat)
  | _, [] => []
  | belief, first :: steps =>
      belief.step process first :: updates process (belief.step process first).2 steps

theorem step_settled {process : DecisionProcess Rat} (regular : process.Nonnegative)
    (inhabited : 0 < belief.size) (step : Step) :
    Settled belief.size (belief.step process step) :=
  adopt_settled inhabited (ascending_propagate process belief.support _ _ _)
    (propagate_nonneg regular belief.support _ _)

/-- Whatever a belief over some states holds, normalized or not, every update of it answers with the
mass kept. If there is any, the belief is a distribution that passes its check; otherwise all of its
entries are zero and it fails the check. So it is after any number of updates. -/
theorem updates_settled {model : Model Rat} (built : model.Built) (inhabited : 0 < belief.size) :
    (∀ jointAction jointObservation event,
        Settled belief.size (belief.update model.process jointAction jointObservation event)) ∧
      ∀ steps, ∀ answer ∈ belief.updates model.process steps, Settled belief.size answer := by
  have regular := built.sound.regular.toNonnegative
  refine ⟨fun jointAction jointObservation event =>
    step_settled regular inhabited ⟨jointAction, jointObservation, event⟩, fun steps => ?_⟩
  induction steps generalizing belief with
  | nil => exact List.forall_mem_nil _
  | cons first steps ih =>
      have settled := step_settled regular inhabited first
      refine List.forall_mem_cons.mpr ⟨settled, ?_⟩
      -- An update keeps the size, so the next one starts from as many states.
      rw [← settled.size]
      exact ih (settled.size ▸ inhabited)

/-- Three entries, one of them negative, for a model of two states: an impossible observation leaves
nothing, and nothing comes back after it. -/
theorem updates_settled_stale :
    ∃ model : Model Rat, model.Built ∧ 0 < (Belief.dense [3, -1, (1 / 2 : Rat)]).size ∧
      (∀ answer ∈ (Belief.dense [3, -1, 1 / 2]).updates model.process
          [⟨0, 1, false⟩, ⟨0, 7, true⟩, ⟨0, 1, false⟩], Settled 3 answer) ∧
        ((Belief.dense [3, -1, 1 / 2]).updates model.process
          [⟨0, 1, false⟩, ⟨0, 7, true⟩, ⟨0, 1, false⟩]).map (·.1) = [1874997 / 625000, 0, 0] := by
  obtain ⟨model, built, answers⟩ := Model.exists_hushed
  have inhabited : 0 < (Belief.dense [3, -1, (1 / 2 : Rat)]).size := by decide
  obtain ⟨_, settled⟩ := updates_settled built inhabited
  exact ⟨model, built, inhabited, settled _, answers (fun model =>
    ((Belief.dense [3, -1, 1 / 2]).updates model.process
      [⟨0, 1, false⟩, ⟨0, 7, true⟩, ⟨0, 1, false⟩]).map (·.1)) _ (by decide +kernel)⟩

end TeamPlanning.Belief
