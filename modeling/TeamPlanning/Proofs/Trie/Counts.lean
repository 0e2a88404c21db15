import TeamPlanning.Proofs.Trie.Frames

/-! # Counting vertices

Erasing answers how many vertices hang from the erased one, itself included. That is how many the tree
loses, except where a fork is emptied: the fork is dropped as well, and not counted. -/

set_option autoImplicit false

namespace TeamPlanning.Trie

variable {α : Type} {trie before after : Trie α} {v top count : Nat} {node : Node α}

/-! ## Sizes of sets -/

theorem toList_slots (trie : Trie α) :
    trie.slots.toList = (List.range trie.slots.size).map trie.node? := by
  refine List.ext_getElem (by simp) fun v _ inside => ?_
  have inside : v < trie.slots.size := by simpa using inside
  simp [node?, inside]

/-- The size of a tree is the number of vertices that live in it. -/
theorem size_eq_ncard (trie : Trie α) : trie.size = {v | trie.Lives v}.ncard := by
  have living : {v | trie.Lives v} =
      (((List.range trie.slots.size).filter fun v => (trie.node? v).isSome).toFinset : Set Nat) := by
    ext v
    have inside : trie.Lives v → v < trie.slots.size := fun ⟨_, live⟩ => lt_size_of_node? live
    simpa [Lives, Option.isSome_iff_exists] using inside
  rw [living, Set.ncard_coe_finset, List.toFinset_card_of_nodup (List.nodup_range.filter _), size,
    toList_slots, List.countP_map, List.countP_eq_length_filter]
  rfl

theorem finite_lives (trie : Trie α) : {v | trie.Lives v}.Finite :=
  (Set.finite_lt_nat trie.slots.size).subset fun _ ⟨_, live⟩ => lt_size_of_node? live

theorem finite_climbs (lives : trie.Lives v) : {u | trie.Climbs u v}.Finite :=
  trie.finite_lives.subset fun _ climbs => climbs.live lives

theorem ncard_climbs_le_size (lives : trie.Lives v) : {u | trie.Climbs u v}.ncard ≤ trie.size := by
  rw [size_eq_ncard]
  exact Set.ncard_le_ncard (fun _ climbs => climbs.live lives) trie.finite_lives

theorem size_le_slots (trie : Trie α) : trie.size ≤ trie.slots.size := by
  rw [← Array.length_toList]
  exact List.countP_le_length

theorem Linked.length_subtree (linked : trie.Linked) (live : trie.node? v = some node) :
    (trie.subtree v).length = {u | trie.Climbs u v}.ncard := by
  obtain ⟨nodup, listed⟩ := linked.subtree_spec live
  have same : {u | trie.Climbs u v} = ((trie.subtree v).toFinset : Set Nat) := by
    ext u
    simp [listed]
  rw [same, Set.ncard_coe_finset, List.toFinset_card_of_nodup nodup]

theorem count_of_erase (success : trie.erase v = .ok (count, after)) :
    count = (trie.subtree v).length := by
  unfold erase at success
  split at success
  · cases success
  · obtain ⟨node, _, success⟩ := bind_eq_ok_iff.mp success
    cases success
    rfl

/-! ## What erasing takes from the size -/

theorem Cut.size_add (cut : before.Cut top after) (lives : before.Lives top) :
    after.size + {u | before.Climbs u top}.ncard = before.size := by
  have remaining : {u | after.Lives u} = {u | before.Lives u} \ {u | before.Climbs u top} :=
    Set.ext cut.lives_iff
  rw [size_eq_ncard, size_eq_ncard, remaining]
  exact Set.ncard_sdiff_add_ncard_of_subset (fun u climbs => climbs.live lives) before.finite_lives

theorem SoleFork.ncard_climbs {fork : Nat} (sole : trie.SoleFork fork v) (linked : trie.Linked) :
    {u | trie.Climbs u fork}.ncard = {u | trie.Climbs u v}.ncard + 1 := by
  have more : {u | trie.Climbs u fork} = Insert.insert fork {u | trie.Climbs u v} :=
    Set.ext fun u => sole.climbs_iff linked
  have finite := finite_climbs (live_of_above? (sole.above linked))
  have fresh : fork ∉ {u | trie.Climbs u v} := linked.not_climbs_above (sole.above linked)
  rw [more, Set.ncard_insert_of_notMem fresh finite]

theorem Proper.size_erase (proper : trie.Proper) (success : trie.erase v = .ok (count, after)) :
    ((∀ fork, ¬ trie.SoleFork fork v) ∧ after.size + count = trie.size) ∨
      (∃ fork, trie.SoleFork fork v) ∧ after.size + count + 1 = trie.size := by
  have linked := proper.linked
  obtain ⟨inner, ⟨node, live⟩, erased⟩ := erase_cases linked success
  obtain ⟨top, cut, ⟨above, hangs⟩, cutAt⟩ := erased.exists_cut linked (linked.exists_above live inner)
  have shrinks := cut.size_add (live_of_above? hangs)
  have counted : count = {u | trie.Climbs u v}.ncard :=
    (count_of_erase success).trans (linked.length_subtree live)
  rcases cutAt with ⟨rfl, none⟩ | sole
  · exact .inl ⟨none, by rw [counted, shrinks]⟩
  · rw [sole.ncard_climbs linked, ← counted, ← Nat.add_assoc] at shrinks
    exact .inr ⟨⟨top, sole⟩, shrinks⟩

/-- Erasing answers by how much the tree shrinks, unless it empties a fork: then the tree shrinks by
one more. -/
theorem Edit.erase_reports_iff {value : α} {edits : List (Edit α)}
    (made : edits.foldl apply (singleton value) = trie)
    (success : trie.erase v = .ok (count, after)) :
    (after.size + count = trie.size ↔ ∀ fork, ¬ trie.SoleFork fork v) ∧
      ∀ fork, trie.SoleFork fork v → after.size + count + 1 = trie.size := by
  have proper : trie.Proper := made ▸ foldl_apply_proper edits (proper_singleton value)
  rcases proper.size_erase success with ⟨none, shrinks⟩ | ⟨⟨fork, sole⟩, shrinks⟩
  · exact ⟨iff_of_true shrinks none, fun fork sole => absurd sole (none fork)⟩
  · exact ⟨iff_of_false (by omega) fun none => none fork sole, fun _ _ => shrinks⟩

/-- An entry with a fork below: all three vertices are counted, and the root stays. -/
theorem Edit.erase_reports_iff_branch : ∃ trie after : Trie String,
    [.insert root (.one 1) "a", .insert 1 (.pair 0 0) "b"].foldl apply (singleton "") = trie ∧
      trie.erase 1 = .ok (3, after) ∧
        (after.size + 3 = trie.size ↔ ∀ fork, ¬ trie.SoleFork fork 1) ∧
          ∀ fork, trie.SoleFork fork 1 → after.size + 3 + 1 = trie.size :=
  ⟨_, _, rfl, rfl, erase_reports_iff rfl rfl⟩

/-- One pair is filed and erased: the answer is 1, but its fork goes too, and of three vertices one
is left. -/
theorem Edit.erase_forgets_fork : ∃ trie after : Trie String,
    [.insert root (.pair 0 0) "x"].foldl apply (singleton "") = trie ∧
      trie.erase 2 = .ok (1, after) ∧ trie.size = 3 ∧ after.size = 1 :=
  ⟨_, _, rfl, rfl, by decide, by decide⟩

end TeamPlanning.Trie
