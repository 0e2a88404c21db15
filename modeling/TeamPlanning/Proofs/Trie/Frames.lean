import TeamPlanning.Proofs.Trie.Dropping
import TeamPlanning.Proofs.Trie.Filing

/-! # Edits are local

A tree is a map from words to values. Whatever edits made it, an edit that succeeds enters or drops
exactly the vertices that it is about, opens or closes one edge between these and the others, and
leaves the others with their values, indices, predecessors and successors. Every vertex that lives can
be erased, but for the root, and every successor can be replaced. -/

set_option autoImplicit false

namespace TeamPlanning.Trie

variable {α : Type} {trie after : Trie α} {v child : Nat} {letter : Letter}

theorem Proper.filed {value : α} (proper : trie.Proper)
    (success : trie.insert v letter value = .ok (child, after)) :
    trie.Filed v letter none value child after := by
  obtain ⟨entry, placed⟩ := placed_of_insert proper.linked success
  exact placed.filed proper.linked entry

/-- What was filed takes an index, and then it is as if it had been filed with it. -/
theorem Proper.numbered {value : α} {filed : Trie α} (proper : trie.Proper)
    (success : trie.insert v letter value = .ok (child, filed)) (index : Nat) :
    ∃ after, filed.assign child index = .ok after ∧
      trie.Filed v letter (some index) value child after := by
  obtain ⟨after, assigned⟩ := assign_of_insert proper.linked success index
  obtain ⟨entry, placed⟩ := placed_of_insert proper.linked success
  exact ⟨after, assigned, (placed.assign assigned).filed proper.linked entry⟩

theorem Proper.dropped {count : Nat} (proper : trie.Proper)
    (success : trie.erase v = .ok (count, after)) : trie.Dropped v after := by
  obtain ⟨inner, ⟨node, live⟩, erased⟩ := erase_cases proper.linked success
  exact erased.dropped proper.linked (proper.linked.exists_above live inner)

theorem Proper.erase_isOk_iff (proper : trie.Proper) :
    (∃ count after, trie.erase v = .ok (count, after)) ↔ v ≠ root ∧ trie.Lives v := by
  constructor
  · rintro ⟨count, after, success⟩
    obtain ⟨inner, live, _⟩ := erase_cases proper.linked success
    exact ⟨inner, live⟩
  · rintro ⟨inner, node, live⟩
    obtain ⟨count, after, success, _⟩ := erase_eq_ok proper.linked inner live
    exact ⟨count, after, success⟩

theorem getOrInsert_eq_ok_iff {make : α → Except Fault (α × Nat)} {fault : Fault}
    (missing : trie.successor v letter = .error fault) :
    trie.getOrInsert v letter make = .ok (child, after) ↔
      ∃ held value index filed, trie.value v = .ok held ∧ make held = .ok (value, index) ∧
        trie.insert v letter value = .ok (child, filed) ∧ filed.assign child index = .ok after := by
  constructor
  · intro success
    rw [getOrInsert, missing] at success
    obtain ⟨held, found, success⟩ := bind_eq_ok_iff.mp success
    obtain ⟨⟨value, index⟩, made, success⟩ := bind_eq_ok_iff.mp success
    obtain ⟨⟨new, filed⟩, inserted, success⟩ := bind_eq_ok_iff.mp success
    obtain ⟨numbered, assigned, success⟩ := bind_eq_ok_iff.mp success
    cases success
    exact ⟨held, value, index, filed, found, made, inserted, assigned⟩
  · rintro ⟨held, value, index, filed, found, made, inserted, assigned⟩
    exact getOrInsert_of_made missing found made inserted assigned

/-- What edits of a tree do. Erasing succeeds wherever there is anything to erase, and so does replacing
a successor; the other edits are described if they succeed. -/
structure LocalEdits (trie : Trie α) : Prop where
  inserted : ∀ v letter value child after, trie.insert v letter value = .ok (child, after) →
    trie.Filed v letter none value child after
  numbered : ∀ v letter value child filed index, trie.insert v letter value = .ok (child, filed) →
    ∃ after, filed.assign child index = .ok after ∧
      trie.Filed v letter (some index) value child after
  found : ∀ v letter child make, trie.successor v letter = .ok child →
    trie.getOrInsert v letter make = .ok (child, trie)
  made : ∀ v letter fault make child after, trie.successor v letter = .error fault →
    (trie.getOrInsert v letter make = .ok (child, after) ↔
      ∃ held value index filed, trie.value v = .ok held ∧ make held = .ok (value, index) ∧
        trie.insert v letter value = .ok (child, filed) ∧ filed.assign child index = .ok after)
  repeated : ∀ v letter make child after, trie.getOrInsert v letter make = .ok (child, after) →
    ∀ make', after.getOrInsert v letter make' = .ok (child, after)
  replaced : ∀ v letter value child after, trie.replace v letter value = .ok (child, after) →
    (∃ old remaining, trie.successor v letter = .ok old ∧ trie.Dropped old remaining ∧
      remaining.Filed v letter none value child after) ∨
    ((∃ fault, trie.successor v letter = .error fault) ∧
      trie.Filed v letter none value child after)
  replaceable : ∀ v letter old value, trie.successor v letter = .ok old →
    ∃ child after, trie.replace v letter value = .ok (child, after)
  erased : ∀ v count after, trie.erase v = .ok (count, after) → trie.Dropped v after
  erasable : ∀ v, (∃ count after, trie.erase v = .ok (count, after)) ↔ v ≠ root ∧ trie.Lives v

theorem Proper.localEdits (proper : trie.Proper) : trie.LocalEdits := by
  constructor
  case inserted => exact fun v letter value child after success => proper.filed success
  case numbered => exact fun v letter value child filed index success => proper.numbered success index
  case found => exact fun v letter child make found => getOrInsert_of_successor found
  case made => exact fun v letter fault make child after missing => getOrInsert_eq_ok_iff missing
  case repeated =>
    intro v letter make child after success make'
    cases outcome : trie.successor v letter with
    | ok found =>
        rw [getOrInsert_of_successor outcome] at success
        cases success
        exact getOrInsert_of_successor outcome
    | error fault =>
        obtain ⟨_, value, index, filed, _, _, inserted, assigned⟩ :=
          (getOrInsert_eq_ok_iff outcome).mp success
        obtain ⟨_, same, filed⟩ := proper.numbered inserted index
        cases assigned.symm.trans same
        exact getOrInsert_of_successor filed.successor
  case replaced =>
    intro v letter value child after success
    cases outcome : trie.successor v letter with
    | ok old =>
        rw [replace, outcome] at success
        obtain ⟨⟨count, remaining⟩, erased, inserted⟩ := bind_eq_ok_iff.mp success
        have remains := erase_proper proper erased
        exact .inl ⟨old, remaining, rfl, proper.dropped erased, remains.filed inserted⟩
    | error fault =>
        rw [replace, outcome] at success
        exact .inr ⟨⟨fault, rfl⟩, proper.filed success⟩
  case replaceable => exact fun v letter old value found => replace_isOk_of_successor proper value found
  case erased => exact fun v count after success => proper.dropped success
  case erasable => exact fun v => proper.erase_isOk_iff

/-- However a new tree was edited, its edits are local, and nothing that lives refuses to be erased but
the root. -/
theorem Edit.edits_are_local (value : α) (edits : List (Edit α)) :
    (edits.foldl apply (singleton value)).LocalEdits :=
  (foldl_apply_proper edits (proper_singleton value)).localEdits

end TeamPlanning.Trie
