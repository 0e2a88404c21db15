/-! # Sparse rows

A row of values keyed by numbers that holds only some of its keys: pairs in ascending order of keys,
each key once. -/

set_option autoImplicit false

namespace TeamPlanning.Sparse

variable {β : Type}

def Ascending (row : List (Nat × β)) : Prop := row.Pairwise (·.1 < ·.1)

def get? : List (Nat × β) → Nat → Option β
  | [], _ => none
  | (k, value) :: row, key => if k = key then some value else get? row key

/-- Puts a value under a key, replacing the one held there. -/
def insert : List (Nat × β) → Nat → β → List (Nat × β)
  | [], key, value => [(key, value)]
  | (k, held) :: row, key, value =>
      if key < k then (key, value) :: (k, held) :: row
      else if key = k then (key, value) :: row
      else (k, held) :: insert row key value

def erase (row : List (Nat × β)) (key : Nat) : List (Nat × β) := row.filter (·.1 != key)

/-- Replaces the value under a key by `change` of it; a key that is not held counts as `blank`. -/
def alter (row : List (Nat × β)) (key : Nat) (blank : β) (change : β → β) : List (Nat × β) :=
  insert row key (change ((get? row key).getD blank))

theorem mem_insert {row : List (Nat × β)} {key : Nat} {value : β} {entry : Nat × β}
    (member : entry ∈ insert row key value) : entry = (key, value) ∨ entry ∈ row := by
  induction row with
  | nil => simpa [insert] using member
  | cons head row ih =>
      simp only [insert] at member
      split at member
      · simpa using member
      · split at member
        · simp only [List.mem_cons] at member ⊢
          exact member.imp id Or.inr
        · simp only [List.mem_cons] at member ⊢
          rcases member with atHead | member
          · exact .inr (.inl atHead)
          · exact (ih member).imp id Or.inr

theorem ascending_insert {row : List (Nat × β)} (sorted : Ascending row) (key : Nat) (value : β) :
    Ascending (insert row key value) := by
  induction row with
  | nil => simp [insert, Ascending]
  | cons head row ih =>
      obtain ⟨above, sorted⟩ := List.pairwise_cons.mp sorted
      simp only [insert]
      split
      · rename_i below
        refine List.pairwise_cons.mpr ⟨?_, List.pairwise_cons.mpr ⟨above, sorted⟩⟩
        intro entry member
        rcases List.mem_cons.mp member with rfl | member
        · exact below
        · exact Nat.lt_trans below (above entry member)
      · split
        · rename_i same
          exact List.pairwise_cons.mpr ⟨fun entry member => same ▸ above entry member, sorted⟩
        · refine List.pairwise_cons.mpr ⟨fun entry member => ?_, ih sorted⟩
          rcases mem_insert member with rfl | member
          · simp only; omega
          · exact above entry member

theorem ascending_erase {row : List (Nat × β)} (sorted : Ascending row) (key : Nat) :
    Ascending (erase row key) :=
  sorted.filter _

theorem get?_insert (row : List (Nat × β)) (key : Nat) (value : β) (other : Nat) :
    get? (insert row key value) other = if key = other then some value else get? row other := by
  induction row with
  | nil => simp [insert, get?]
  | cons head row ih =>
      simp only [insert]
      split
      · simp [get?]
      · split
        · rename_i same
          simp only [get?, same]
          split <;> simp_all
        · simp only [get?, ih]
          split <;> split <;> simp_all

theorem get?_erase (row : List (Nat × β)) (key other : Nat) :
    get? (erase row key) other = if key = other then none else get? row other := by
  induction row with
  | nil => simp [erase, get?]
  | cons head row ih =>
      unfold erase at ih ⊢
      by_cases same : head.1 = key
      · simp only [same, List.filter_cons, bne_self_eq_false, Bool.false_eq_true, ↓reduceIte, ih,
          get?]
        split <;> rfl
      · simp only [List.filter_cons, bne_iff_ne, ne_eq, same, not_false_eq_true, ↓reduceIte, get?,
          ih]
        split <;> split <;> simp_all

end TeamPlanning.Sparse
