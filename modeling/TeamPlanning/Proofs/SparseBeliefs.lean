import TeamPlanning.Proofs.Filtering
import TeamPlanning.Proofs.Storage.Table

/-! # Sparse beliefs beside dense ones

An update moves the same mass in both kinds of beliefs. A dense belief holds on to all of it. A
sparse one drops the states to which no more than the tolerance is moved, and normalizes what is
left. So the two agree as far as little mass is dropped, next to all that is moved. -/

set_option autoImplicit false

namespace TeamPlanning

open scoped BigOperators

namespace Sparse

variable {β γ : Type}

theorem get?_filter {row : List (Nat × β)} (sorted : Ascending row) (keep : Nat × β → Bool)
    (key : Nat) :
    get? (row.filter keep) key = (get? row key).filter fun value => keep (key, value) := by
  ext value
  rw [← mem_iff_get? (List.Pairwise.filter keep sorted), List.mem_filter, mem_iff_get? sorted,
    Option.filter_eq_some_iff]

theorem get?_map (row : List (Nat × β)) (change : β → γ) (key : Nat) :
    get? (row.map fun entry => (entry.1, change entry.2)) key = (get? row key).map change := by
  induction row with
  | nil => rfl
  | cons entry row ih =>
      rw [List.map_cons, get?, get?]
      by_cases here : entry.1 = key
      · rw [if_pos here, if_pos here]
        rfl
      · rw [if_neg here, if_neg here, ih]

theorem get?_listing (size : Nat) (entry : Nat → β) (key : Nat) :
    get? ((List.range size).map fun key => (key, entry key)) key =
      if key < size then some (entry key) else none := by
  ext value
  rw [← mem_iff_get? (ascending_listing size entry), List.mem_map]
  by_cases inside : key < size
  · simp [inside]
  · simp [inside]

end Sparse

namespace Belief

section Moved

variable {W : Type} [Weight W]

theorem ascending_foldl_accumulate {mass : List (Nat × W)} (sorted : Sparse.Ascending mass)
    (entries : List (Nat × W)) : Sparse.Ascending (entries.foldl accumulate mass) := by
  induction entries generalizing mass with
  | nil => exact sorted
  | cons entry entries ih => exact ih (Sparse.ascending_insert sorted entry.1 _)

/-- What an update moves is listed in the order of states. -/
theorem ascending_propagate (process : DecisionProcess W) (support : List (Nat × W))
    (jointAction jointObservation : Nat) (event : Bool) :
    Sparse.Ascending (propagate process support jointAction jointObservation event) := by
  have moved := ascending_foldl_accumulate (W := W) List.Pairwise.nil
    ((support.filter (Weight.positive ·.2)).flatMap
      (contributions process jointAction jointObservation event))
  unfold propagate
  cases event with
  | true => exact moved
  | false =>
      simp only [Bool.false_eq_true, ↓reduceIte]
      rw [Sparse.Ascending, List.pairwise_map]
      exact moved

end Moved

/-! ## The same entries in both kinds -/

/-- The row lists the entries of a dense belief in the order of states; it may leave out zeros. -/
structure Alike (entries : List Rat) (row : List (Nat × Rat)) : Prop where
  sorted : Sparse.Ascending row
  same : ∀ state, (Sparse.get? row state).getD 0 = entries[state]?.getD 0

theorem alike_blank (size : Nat) : Alike (List.replicate size 0) [] := by
  refine ⟨List.Pairwise.nil, fun state => ?_⟩
  rw [List.getElem?_replicate]
  split <;> rfl

namespace Alike

variable {entries : List Rat} {row : List (Nat × Rat)} (alike : Alike entries row)
include alike

/-- Beliefs of both kinds stay alike when the same entry is set in both. -/
theorem set (state : Nat) (p : Rat) (inside : state < entries.length) :
    Alike (entries.set state p)
      (if Weight.eq p Weight.zero then Sparse.erase row state
        else Sparse.insert row state p) := by
  refine ⟨?_, fun other => ?_⟩
  · split
    · exact Sparse.ascending_erase alike.sorted state
    · exact Sparse.ascending_insert alike.sorted state p
  · rw [List.getElem?_set]
    split
    · rename_i zero
      obtain rfl : p = 0 := by simpa [Weight.eq] using zero
      rw [Sparse.get?_erase]
      by_cases here : state = other
      · simp [here]
      · rw [if_neg here, if_neg here, alike.same]
    · rw [Sparse.get?_insert]
      by_cases here : state = other
      · simp [here]
      · rw [if_neg here, if_neg here, alike.same]

/-- The entries above zero are listed alike in both kinds. -/
theorem carriers_eq : (Belief.dense entries).support.filter (Weight.positive ·.2) =
    row.filter (Weight.positive ·.2) := by
  have above : ∀ p : Rat, (Weight.positive p && !Weight.eq p Weight.zero) = Weight.positive p := by
    intro p
    rw [Bool.eq_iff_iff, Bool.and_eq_true, Weight.positive_iff, and_iff_left_iff_imp]
    intro positive
    simp [Weight.eq, ne_of_gt positive]
  have listed : (Belief.dense entries).support.filter (Weight.positive ·.2) =
      ((List.range entries.length).map fun state => (state, entries[state]?.getD 0)).filter
        (Weight.positive ·.2) := by
    rw [dense_eq_tabulate, support_tabulate, List.filter_filter]
    simp only [above]
  rw [listed]
  refine Sparse.eq_of_get? (List.Pairwise.filter _ (Sparse.ascending_listing _ _))
    (List.Pairwise.filter _ alike.sorted) fun state => ?_
  rw [Sparse.get?_filter (Sparse.ascending_listing _ _), Sparse.get?_filter alike.sorted,
    Sparse.get?_listing, ← alike.same]
  cases found : Sparse.get? row state with
  | none =>
      split <;> rfl
  | some p =>
      by_cases inside : state < entries.length
      · rw [if_pos inside]
        rfl
      · have none : p = 0 := by
          have same := alike.same state
          rwa [found, List.getElem?_eq_none (Nat.le_of_not_lt inside)] at same
        rw [if_neg inside, none]
        rfl

/-- An update moves the same mass in both kinds. -/
theorem propagate_eq (process : DecisionProcess Rat) (size jointAction jointObservation : Nat)
    (event : Bool) :
    propagate process (Belief.dense entries).support jointAction jointObservation event =
      propagate process (Belief.sparse size row).support jointAction jointObservation event := by
  unfold propagate
  rw [alike.carriers_eq]
  rfl

end Alike

/-! ## What an update keeps -/

/-- The mass that an update moves to a state. -/
def massAt (mass : List (Nat × Rat)) (state : Nat) : Rat := (Sparse.get? mass state).getD 0

/-- The mass of the states that a sparse belief keeps. -/
def keptMass (size : Nat) (mass : Nat → Rat) : Rat :=
  ∑ state ∈ (Finset.range size).filter (Weight.tolerance < mass ·), mass state

section Kept

variable {mass : List (Nat × Rat)} (sorted : Sparse.Ascending mass) (size : Nat)
include sorted

theorem get?_kept (state : Nat) :
    Sparse.get? (mass.filter fun entry =>
        decide (entry.1 < size) && Weight.lt Weight.tolerance entry.2) state =
      if state < size ∧ Weight.tolerance < massAt mass state then some (massAt mass state)
      else none := by
  rw [Sparse.get?_filter sorted, massAt]
  cases Sparse.get? mass state with
  | none =>
      rw [if_neg]
      · rfl
      · intro given
        exact absurd given.2 (not_lt.mpr (le_of_lt Weight.tolerance_pos))
  | some p => simp [Option.filter]

theorem sum_kept :
    ((mass.filter fun entry =>
        decide (entry.1 < size) && Weight.lt Weight.tolerance entry.2).map (·.2)).sum =
      keptMass size (massAt mass) := by
  have below : ∀ entry ∈ mass.filter fun entry =>
      decide (entry.1 < size) && Weight.lt Weight.tolerance entry.2, entry.1 < size := by
    intro entry member
    have kept := (List.mem_filter.mp member).2
    rw [Bool.and_eq_true] at kept
    exact of_decide_eq_true kept.1
  rw [← Sparse.sum_gathered below, keptMass, Finset.sum_filter]
  refine Finset.sum_congr rfl fun state inside => ?_
  rw [Sparse.gathered_of_ascending (List.Pairwise.filter _ sorted), get?_kept sorted]
  by_cases heavy : Weight.tolerance < massAt mass state
  · rw [if_pos ⟨Finset.mem_range.mp inside, heavy⟩, if_pos heavy]
    rfl
  · rw [if_neg fun given => heavy given.2, if_neg heavy]
    rfl

theorem adopt_sparse (row : List (Nat × Rat)) :
    ((Belief.sparse size row).adopt mass).1 = keptMass size (massAt mass) ∧
      ∀ state, ((Belief.sparse size row).adopt mass).2.get state =
        if state < size ∧ Weight.tolerance < massAt mass state then
          normalize (keptMass size (massAt mass)) (massAt mass state)
        else 0 := by
  simp only [adopt, Weight.sum_eq, sum_kept sorted]
  refine ⟨trivial, fun state => ?_⟩
  rw [get, Sparse.get?_map, get?_kept sorted]
  split <;> rfl

end Kept

theorem adopt_dense (entries : List Rat) (mass : List (Nat × Rat)) :
    ((Belief.dense entries).adopt mass).1 =
        ∑ state ∈ Finset.range entries.length, massAt mass state ∧
      ∀ state, ((Belief.dense entries).adopt mass).2.get state =
        if state < entries.length then
          normalize (∑ state ∈ Finset.range entries.length, massAt mass state)
            (massAt mass state)
        else 0 := by
  rw [dense_eq_tabulate, adopt_tabulate]
  refine ⟨rfl, fun state => ?_⟩
  by_cases inside : state < entries.length
  · rw [if_pos inside]
    exact get_tabulate inside _
  · rw [if_neg inside]
    simp [tabulate, get, Nat.le_of_not_lt inside]

/-- A dense belief that took over some mass has all of it, in proportion. -/
theorem adopted_dense {entries : List Rat} {mass : List (Nat × Rat)} {p : Rat}
    {dense : Belief Rat} (adopted : (Belief.dense entries).adopt mass = (p, dense))
    (possible : 0 < p) :
    p = ∑ state ∈ Finset.range entries.length, massAt mass state ∧
      (∀ state, entries.length ≤ state → dense.get state = 0) ∧
        ∀ state, p * dense.get state =
          if state < entries.length then massAt mass state else 0 := by
  obtain ⟨total, spread⟩ := adopt_dense entries mass
  simp only [adopted] at total spread
  rw [← total] at spread
  refine ⟨total, fun state beyond => ?_, fun state => ?_⟩
  · rw [spread, if_neg (Nat.not_lt_of_le beyond)]
  · rw [spread]
    split
    · rw [normalize, if_pos ((Weight.positive_iff p).mpr possible),
        mul_div_cancel₀ _ (ne_of_gt possible)]
    · exact mul_zero p

/-! ## How far the kinds agree -/

theorem keptMass_congr {size : Nat} {mass other : Nat → Rat}
    (same : ∀ state < size, mass state = other state) :
    keptMass size mass = keptMass size other := by
  rw [keptMass, keptMass, Finset.sum_filter, Finset.sum_filter]
  exact Finset.sum_congr rfl fun state inside => by rw [same state (Finset.mem_range.mp inside)]

/-- The states that carry mass, but no more than the tolerance. -/
def faint (size : Nat) (mass : Nat → Rat) : Finset Nat :=
  (Finset.range size).filter fun state => 0 < mass state ∧ mass state ≤ Weight.tolerance

section Masses

variable {size : Nat} {mass : Nat → Rat} (nonneg : ∀ state, 0 ≤ mass state)
include nonneg

theorem sum_sub_keptMass :
    ∑ state ∈ Finset.range size, mass state - keptMass size mass =
      ∑ state ∈ faint size mass, mass state := by
  have light : ∑ state ∈ (Finset.range size).filter (¬ Weight.tolerance < mass ·), mass state =
      ∑ state ∈ faint size mass, mass state := by
    rw [faint, Finset.sum_filter, Finset.sum_filter]
    refine Finset.sum_congr rfl fun state _ => ?_
    rcases lt_or_eq_of_le (nonneg state) with some | none
    · simp only [some, true_and, not_lt]
    · rw [← none]
      simp
  rw [keptMass, ← Finset.sum_filter_add_sum_filter_not (Finset.range size)
    (Weight.tolerance < mass ·), light, add_sub_cancel_left]

omit nonneg in
theorem sum_faint_le : ∑ state ∈ faint size mass, mass state ≤
    (faint size mass).card * Weight.tolerance := by
  rw [← nsmul_eq_mul]
  exact Finset.sum_le_card_nsmul _ _ _ fun state member => (Finset.mem_filter.mp member).2.2

theorem le_keptMass {state : Nat} (inside : state < size) (heavy : Weight.tolerance < mass state) :
    mass state ≤ keptMass size mass := by
  apply Finset.single_le_sum fun other _ => nonneg other
  exact Finset.mem_filter.mpr ⟨Finset.mem_range.mpr inside, heavy⟩

end Masses

/-- What a dense and a sparse belief hold after the same mass was moved in both: all of it, which is
`p`, in the dense one, and `q` of it in the sparse one. -/
structure Pruned (size : Nat) (p q : Rat) (dense sparse : Belief Rat) : Prop where
  nonneg : ∀ state, 0 ≤ p * dense.get state
  beyond : ∀ state, size ≤ state → dense.get state = 0
  total : ∑ state ∈ Finset.range size, p * dense.get state = p
  kept : keptMass size (p * dense.get ·) = q
  entries : ∀ state, sparse.get state =
    if Weight.tolerance < p * dense.get state then p * dense.get state / q else 0

namespace Pruned

variable {size : Nat} {p q : Rat} {dense sparse : Belief Rat}
  (pruned : Pruned size p q dense sparse)
include pruned

theorem loss : p - q = ∑ state ∈ faint size (p * dense.get ·), p * dense.get state := by
  have parts := @sum_sub_keptMass size _ pruned.nonneg
  rwa [pruned.total, pruned.kept] at parts

theorem loss_nonneg : 0 ≤ p - q := by
  rw [pruned.loss]
  exact Finset.sum_nonneg fun state _ => pruned.nonneg state

theorem inside_of_heavy {state : Nat} (heavy : Weight.tolerance < p * dense.get state) :
    state < size := by
  by_contra beyond
  rw [pruned.beyond state (not_lt.mp beyond), mul_zero] at heavy
  exact absurd heavy (not_lt.mpr (le_of_lt Weight.tolerance_pos))

theorem le_kept {state : Nat} (heavy : Weight.tolerance < p * dense.get state) :
    p * dense.get state ≤ q := by
  rw [← pruned.kept]
  exact le_keptMass pruned.nonneg (pruned.inside_of_heavy heavy) heavy

theorem kept_pos {state : Nat} (heavy : Weight.tolerance < p * dense.get state) : 0 < q :=
  lt_of_lt_of_le (lt_trans Weight.tolerance_pos heavy) (pruned.le_kept heavy)

/-- A dropped state carried no more than all that was dropped. -/
theorem le_loss {state : Nat} (light : ¬ Weight.tolerance < p * dense.get state) :
    p * dense.get state ≤ p - q := by
  rcases lt_or_eq_of_le (pruned.nonneg state) with some | none
  · have inside : state < size := by
      by_contra beyond
      rw [pruned.beyond state (not_lt.mp beyond), mul_zero] at some
      exact lt_irrefl 0 some
    rw [pruned.loss]
    apply Finset.single_le_sum fun other _ => pruned.nonneg other
    exact Finset.mem_filter.mpr ⟨Finset.mem_range.mpr inside, some, not_lt.mp light⟩
  · rw [← none]
    exact pruned.loss_nonneg

variable (possible : 0 < p)
include possible

theorem get_nonneg (state : Nat) : 0 ≤ dense.get state :=
  nonneg_of_mul_nonneg_right (pruned.nonneg state) possible

theorem abs_sub_of_kept {state : Nat} (heavy : Weight.tolerance < p * dense.get state) :
    |dense.get state - sparse.get state| = dense.get state * (p - q) / q := by
  have positive := pruned.kept_pos heavy
  have difference : dense.get state - sparse.get state =
      -(dense.get state * (p - q) / q) := by
    rw [pruned.entries, if_pos heavy]
    field_simp
    ring
  rw [difference, abs_neg, abs_of_nonneg]
  exact div_nonneg (mul_nonneg (pruned.get_nonneg possible state) pruned.loss_nonneg) (le_of_lt positive)

theorem abs_sub_of_dropped {state : Nat} (light : ¬ Weight.tolerance < p * dense.get state) :
    |dense.get state - sparse.get state| = dense.get state := by
  rw [pruned.entries, if_neg light, sub_zero, abs_of_nonneg (pruned.get_nonneg possible state)]

/-- No entry is further off than the share of the mass that was dropped. -/
theorem abs_sub_le (state : Nat) : |dense.get state - sparse.get state| ≤ (p - q) / p := by
  rw [le_div_iff₀ possible]
  by_cases heavy : Weight.tolerance < p * dense.get state
  · have positive := pruned.kept_pos heavy
    rw [pruned.abs_sub_of_kept possible heavy]
    calc dense.get state * (p - q) / q * p
        = (p * dense.get state) * ((p - q) / q) := by ring
      _ ≤ q * ((p - q) / q) :=
          mul_le_mul_of_nonneg_right (pruned.le_kept heavy)
            (div_nonneg pruned.loss_nonneg (le_of_lt positive))
      _ = p - q := mul_div_cancel₀ _ (ne_of_gt positive)
  · rw [pruned.abs_sub_of_dropped possible heavy, mul_comm]
    exact pruned.le_loss heavy

/-- The entries agree up to the tolerance exactly if no state was dropped that is heavier than that,
and the states that were kept did not gain more. -/
theorem near_iff (state : Nat) :
    |dense.get state - sparse.get state| ≤ Weight.tolerance ↔
      if Weight.tolerance < p * dense.get state then
        dense.get state * (p - q) ≤ Weight.tolerance * q
      else dense.get state ≤ Weight.tolerance := by
  by_cases heavy : Weight.tolerance < p * dense.get state
  · have positive := pruned.kept_pos heavy
    rw [if_pos heavy, pruned.abs_sub_of_kept possible heavy,
      div_le_iff₀ positive]
  · rw [if_neg heavy, pruned.abs_sub_of_dropped possible heavy]

end Pruned

/-! ## Updates -/

theorem pruned_of_updates {process : DecisionProcess Rat} (regular : process.Nonnegative)
    {entries : List Rat} {row : List (Nat × Rat)} (alike : Alike entries row)
    {jointAction jointObservation : Nat} {event : Bool} {p q : Rat} {dense sparse : Belief Rat}
    (updated : (Belief.dense entries).update process jointAction jointObservation event =
      (p, dense))
    (updated' : (Belief.sparse entries.length row).update process jointAction jointObservation
      event = (q, sparse)) (possible : 0 < p) :
    Pruned entries.length p q dense sparse := by
  rw [update, alike.propagate_eq process entries.length] at updated
  rw [update] at updated'
  generalize mass_eq : propagate process (Belief.sparse entries.length row).support jointAction
    jointObservation event = mass at updated updated'
  have sorted : Sparse.Ascending mass := mass_eq ▸ ascending_propagate _ _ _ _ _
  have nonneg : ∀ state, 0 ≤ massAt mass state :=
    get?_nonneg (mass_eq ▸ propagate_nonneg regular _ _ _)
  obtain ⟨total, beyond, moved⟩ := adopted_dense updated possible
  obtain ⟨kept, held⟩ := adopt_sparse sorted entries.length row
  simp only [updated'] at kept held
  rw [← kept] at held
  have inside : ∀ state < entries.length, p * dense.get state = massAt mass state :=
    fun state inside => (moved state).trans (if_pos inside)
  constructor
  case nonneg =>
      intro state
      rw [moved]
      split
      · exact nonneg state
      · exact le_refl 0
  case beyond => exact beyond
  case total =>
      rw [Finset.sum_congr rfl fun state member => inside state (Finset.mem_range.mp member),
        ← total]
  case kept => rw [keptMass_congr inside, ← kept]
  case entries =>
      intro state
      rw [held, moved]
      by_cases known : state < entries.length
      · rw [if_pos known]
        by_cases heavy : Weight.tolerance < massAt mass state
        · have positive : 0 < q := by
            rw [kept]
            exact lt_of_lt_of_le (lt_trans Weight.tolerance_pos heavy)
              (le_keptMass nonneg known heavy)
          rw [if_pos ⟨known, heavy⟩, if_pos heavy, normalize,
            if_pos ((Weight.positive_iff q).mpr positive)]
        · rw [if_neg fun given => heavy given.2, if_neg heavy]
      · rw [if_neg known, if_neg fun given => known given.1, zero_div, ite_self]

/-- Where the same entries are held in both kinds and an update moves some mass, the sparse belief
keeps the states to which more than the tolerance is moved, and answers with their mass. So the
answers differ by the mass of the states dropped, and no entry by more than its share. The beliefs
agree up to the tolerance exactly if that mass is within it, no entry dropped is above it, and no
entry kept grows by more. -/
theorem sparse_update_agrees_iff {model : Model Rat} (built : model.Built) {entries : List Rat}
    {row : List (Nat × Rat)} (alike : Alike entries row) {jointAction jointObservation : Nat}
    {event : Bool} {p q : Rat} {dense sparse : Belief Rat}
    (updated : (Belief.dense entries).update model.process jointAction jointObservation event =
      (p, dense))
    (updated' : (Belief.sparse entries.length row).update model.process jointAction
      jointObservation event = (q, sparse)) (possible : 0 < p) :
    (∀ state, sparse.get state =
      if Weight.tolerance < p * dense.get state then p * dense.get state / q else 0) ∧
    q = keptMass entries.length (p * dense.get ·) ∧
    p - q = ∑ state ∈ faint entries.length (p * dense.get ·), p * dense.get state ∧
    0 ≤ p - q ∧
    p - q ≤ (faint entries.length (p * dense.get ·)).card * Weight.tolerance ∧
    (∀ state, |dense.get state - sparse.get state| ≤ (p - q) / p) ∧
    (|p - q| ≤ Weight.tolerance ∧
        (∀ state, |dense.get state - sparse.get state| ≤ Weight.tolerance) ↔
      p - q ≤ Weight.tolerance ∧ ∀ state,
        if Weight.tolerance < p * dense.get state then
          dense.get state * (p - q) ≤ Weight.tolerance * q
        else dense.get state ≤ Weight.tolerance) := by
  have pruned := pruned_of_updates built.sound.regular.toNonnegative alike updated updated' possible
  refine ⟨pruned.entries, pruned.kept.symm, pruned.loss, pruned.loss_nonneg, ?_, pruned.abs_sub_le possible, ?_⟩
  · rw [pruned.loss]
    exact sum_faint_le
  · rw [abs_of_nonneg pruned.loss_nonneg]
    exact and_congr_right fun _ => forall_congr' (pruned.near_iff possible)

end Belief

namespace Model

/-- Two states that are never left. One of two observations is hardly ever made in them. -/
def hushed : Except Fault (Model Rat) := do
  let model ← create 2 [⟨1, 2⟩] .dense
  let model ← model.writeTransition 0 0 0 1
  let model ← model.writeTransition 1 0 1 1
  let model ← model.writeObservation 0 0 0 (1 / 625000)
  let model ← model.writeObservation 0 0 1 (624999 / 625000)
  let model ← model.writeObservation 0 1 0 (1 / 625000)
  model.writeObservation 0 1 1 (624999 / 625000)

theorem exists_hushed : ∃ model : Model Rat, model.Built ∧
    ∀ {α : Type} (query : Model Rat → α) (answer : α),
      (hushed.map query).toOption = some answer → query model = answer := by
  obtain ⟨model, made⟩ : ∃ model, hushed = .ok model := by
    apply exists_of_isOk
    decide +kernel
  refine ⟨model, ?_, fun query answer asked => ?_⟩
  · obtain ⟨blank, created, rest⟩ := bind_eq_ok_iff.mp made
    obtain ⟨first, moved, rest⟩ := bind_eq_ok_iff.mp rest
    obtain ⟨second, moved', rest⟩ := bind_eq_ok_iff.mp rest
    obtain ⟨third, seen, rest⟩ := bind_eq_ok_iff.mp rest
    obtain ⟨fourth, seen', rest⟩ := bind_eq_ok_iff.mp rest
    obtain ⟨fifth, seen'', rest⟩ := bind_eq_ok_iff.mp rest
    exact .observation (.observation (.observation (.observation
      (.transition (.transition (.created created) moved) moved') seen) seen') seen'') rest
  · rw [made] at asked
    exact Option.some.inj asked

end Model

namespace Belief

theorem alike_halves : Alike [1 / 2, 1 / 2] [(0, 1 / 2), (1, 1 / 2)] := by
  have first := (alike_blank 2).set 0 (1 / 2) (by simp)
  have second := first.set 1 (1 / 2) (by simp)
  simpa [Weight.eq, Sparse.insert] using second

/-- The observation that is made hardly ever leaves a sparse belief empty. -/
theorem sparse_update_drains :
    ∃ model : Model Rat, model.Built ∧ model.validate.isOk = true ∧
      Alike [1 / 2, 1 / 2] [(0, 1 / 2), (1, 1 / 2)] ∧
        (∀ p ∈ [(1 / 2 : Rat), 1 / 2], 0 ≤ p) ∧ [(1 / 2 : Rat), 1 / 2].sum = 1 ∧
        (Belief.dense [1 / 2, 1 / 2]).update model.process 0 0 false =
            (1 / 625000, .dense [1 / 2, 1 / 2]) ∧
          (Belief.sparse 2 [(0, 1 / 2), (1, 1 / 2)]).update model.process 0 0 false =
            (0, .sparse 2 []) ∧
          (0 : Rat) < 1 / 625000 ∧
          ¬ |(1 / 625000 : Rat) - 0| ≤ Weight.tolerance ∧
          ¬ |(Belief.dense [1 / 2, 1 / 2]).get 0 - (Belief.sparse 2 []).get 0| ≤
            (Weight.tolerance : Rat) := by
  obtain ⟨model, built, answers⟩ := Model.exists_hushed
  have valid := answers (·.validate.isOk) true (by decide +kernel)
  have drained := answers
    (fun model => (Belief.sparse 2 [(0, 1 / 2), (1, 1 / 2)]).update model.process 0 0 false)
    (0, .sparse 2 []) (by decide +kernel)
  have updated := answers
    (fun model => (Belief.dense [1 / 2, 1 / 2]).update model.process 0 0 false)
    (1 / 625000, .dense [1 / 2, 1 / 2]) (by decide +kernel)
  exact ⟨model, built, valid, alike_halves, by decide +kernel, by decide +kernel, updated, drained,
    by decide +kernel, by decide +kernel, by decide +kernel⟩

/-- With the other observation nothing is dropped. -/
theorem sparse_update_agrees_iff_hushed :
    ∃ model : Model Rat, model.Built ∧ Alike [1 / 2, 1 / 2] [(0, 1 / 2), (1, 1 / 2)] ∧
      ∃ p q dense sparse,
        (Belief.dense [1 / 2, 1 / 2]).update model.process 0 1 false = (p, dense) ∧
          (Belief.sparse 2 [(0, 1 / 2), (1, 1 / 2)]).update model.process 0 1 false =
            (q, sparse) ∧
          0 < p ∧ |p - q| ≤ Weight.tolerance ∧
            ∀ state, |dense.get state - sparse.get state| ≤ Weight.tolerance := by
  obtain ⟨model, built, answers⟩ := Model.exists_hushed
  have updated := answers
    (fun model => (Belief.dense [1 / 2, 1 / 2]).update model.process 0 1 false)
    (624999 / 625000, .dense [1 / 2, 1 / 2]) (by decide +kernel)
  have updated' := answers
    (fun model => (Belief.sparse 2 [(0, 1 / 2), (1, 1 / 2)]).update model.process 0 1 false)
    (624999 / 625000, .sparse 2 [(0, 1 / 2), (1, 1 / 2)]) (by decide +kernel)
  have possible : (0 : Rat) < 624999 / 625000 := by decide +kernel
  obtain ⟨_, _, _, _, _, _, agree⟩ :=
    sparse_update_agrees_iff built alike_halves updated updated' possible
  refine ⟨model, built, alike_halves, _, _, _, _, updated, updated', possible,
    agree.mpr ⟨by decide +kernel, fun state => ?_⟩⟩
  match state with
  | 0 => decide +kernel
  | 1 => decide +kernel
  | state + 2 =>
      have nothing : (Belief.dense [(1 / 2 : Rat), 1 / 2]).get (state + 2) = 0 := rfl
      rw [nothing, if_neg (by decide +kernel)]
      exact le_of_lt Weight.tolerance_pos

end Belief

end TeamPlanning
