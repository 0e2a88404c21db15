import TeamPlanning.Proofs.Trie.Subtree

/-! # Erasing

Erasing a vertex drops it with its subtree, and then the fork above it if nothing else hangs there.
Both are the same cut: all vertices that climb to the one that is cut lose their numbers, and the one
place that led to it is closed. A cut keeps a tree linked, and no fork is left empty. -/

set_option autoImplicit false

namespace TeamPlanning.Trie

variable {α : Type} {trie before after : Trie α} {v u : Nat} {node : Node α} {doomed : List Nat}

/-! ## Giving up numbers -/

theorem node?_release (inside : v < trie.slots.size) (u : Nat) :
    (trie.release v).node? u = if u = v then none else trie.node? u :=
  node?_put inside none u

theorem Tidy.release (tidy : trie.Tidy) (live : trie.node? v = some node) :
    (trie.release v).Tidy := by
  have inside := lt_size_of_node? live
  have taken : v ∉ trie.free := by
    intro member
    have unused := (tidy.dead v member).2
    rw [live] at unused
    cases unused
  refine ⟨List.nodup_cons.mpr ⟨taken, tidy.nodup⟩, fun w member => ?_⟩
  have small : w < trie.slots.size ∧ (w = v ∨ trie.node? w = none) := by
    rcases List.mem_cons.mp member with rfl | member
    · exact ⟨inside, .inl rfl⟩
    · exact ⟨(tidy.dead w member).1, .inr (tidy.dead w member).2⟩
  refine ⟨by simpa [Trie.release, Trie.put] using small.1, ?_⟩
  rw [node?_release inside]
  split
  · rfl
  · rename_i other
    exact small.2.resolve_left other

theorem foldl_release (tidy : trie.Tidy) (nodup : doomed.Nodup)
    (present : ∀ v ∈ doomed, ∃ node, trie.node? v = some node) :
    (doomed.foldl Trie.release trie).Tidy ∧ ∀ u, (doomed.foldl Trie.release trie).node? u =
      if u ∈ doomed then none else trie.node? u := by
  induction doomed generalizing trie with
  | nil => exact ⟨tidy, fun u => by simp⟩
  | cons v doomed ih =>
      obtain ⟨fresh, nodup⟩ := List.nodup_cons.mp nodup
      obtain ⟨⟨node, live⟩, present⟩ := List.forall_mem_cons.mp present
      have nodes := node?_release (lt_size_of_node? live)
      have present' : ∀ w ∈ doomed, ∃ node, (trie.release v).node? w = some node := by
        intro w member
        rw [nodes, if_neg (ne_of_mem_of_not_mem member fresh)]
        exact present w member
      obtain ⟨tidy', released⟩ := ih (tidy.release live) nodup present'
      refine ⟨tidy', fun u => ?_⟩
      rw [List.foldl_cons, released, nodes]
      by_cases first : u = v <;> by_cases later : u ∈ doomed <;> simp [first, later]

/-! ## Closing the place -/

namespace Linked

variable (linked : before.Linked)
include linked

/-- Only the vertex that it hangs from has it among its children. -/
theorem filter_children_eq (elsewhere : before.above? v ≠ some u)
    (live : before.node? u = some node) : node.children.filter (·.2 != v) = node.children := by
  refine List.filter_eq_self.mpr fun place member => ?_
  have other : place.2 ≠ v := by
    intro same
    subst same
    refine elsewhere (linked.above?_eq_some_iff.mpr ⟨place.1, ?_⟩)
    rwa [children_of_node? live]
  simpa using other

theorem detach_spec : (before.detach v).Tidy ∧ ∀ u, (before.detach v).node? u =
    (before.node? u).map fun node =>
      { node with children := node.children.filter (·.2 != v) } := by
  have unchanged : ∀ u, before.above? v ≠ some u → before.node? u =
      (before.node? u).map fun node =>
        { node with children := node.children.filter (·.2 != v) } := by
    intro u elsewhere
    cases live : before.node? u with
    | none => rfl
    | some node => rw [Option.map_some, linked.filter_children_eq elsewhere live]
  cases hangs : before.above? v with
  | none =>
      have same : before.detach v = before := by
        rw [above?] at hangs
        rw [detach, hangs]
      rw [same]
      exact ⟨linked.tidy, fun u => unchanged u (by rw [hangs]; simp)⟩
  | some parent =>
      obtain ⟨node, live⟩ := linked.live_above hangs
      have closed : before.detach v = before.put parent
          (some { node with children := node.children.filter (·.2 != v) }) := by
        rw [above?] at hangs
        simp only [detach, hangs, live]
      rw [closed]
      refine ⟨linked.tidy.put live _, fun u => ?_⟩
      rw [node?_put (lt_size_of_node? live)]
      by_cases here : u = parent
      · subst here
        rw [if_pos rfl, live, Option.map_some]
      · rw [if_neg here]
        refine unchanged u fun same => here ?_
        rw [hangs] at same
        exact (Option.some.inj same).symm

end Linked

/-! ## Cutting -/

/-- The tree after the vertex was cut off. -/
structure Cut (before : Trie α) (v : Nat) (after : Trie α) : Prop where
  tidy : after.Tidy
  gone : ∀ u, before.Climbs u v → after.node? u = none
  kept : ∀ u, ¬ before.Climbs u v → after.node? u = (before.node? u).map fun node =>
    { node with children := node.children.filter (·.2 != v) }

theorem Linked.cut (linked : before.Linked) (live : before.node? v = some node)
    (nodup : doomed.Nodup) (listed : ∀ u, u ∈ doomed ↔ before.Climbs u v) :
    before.Cut v (doomed.foldl Trie.release (before.detach v)) := by
  obtain ⟨tidy, nodes⟩ := linked.detach_spec (v := v)
  have present : ∀ u ∈ doomed, ∃ node, (before.detach v).node? u = some node := by
    intro u member
    obtain ⟨below, found⟩ := ((listed u).mp member).live ⟨node, live⟩
    exact ⟨_, by rw [nodes, found, Option.map_some]⟩
  obtain ⟨tidy, released⟩ := foldl_release tidy nodup present
  refine ⟨tidy, fun u climbs => ?_, fun u apart => ?_⟩
  · rw [released, if_pos ((listed u).mpr climbs)]
  · rw [released, if_neg (fun member => apart ((listed u).mp member)), nodes]

namespace Cut

variable (cut : before.Cut v after)
include cut

theorem node_cases (live : after.node? u = some node) : ¬ before.Climbs u v ∧
    ∃ old, before.node? u = some old ∧
      node = { old with children := old.children.filter (·.2 != v) } := by
  by_cases climbs : before.Climbs u v
  · rw [cut.gone u climbs] at live
    cases live
  · rw [cut.kept u climbs, Option.map_eq_some_iff] at live
    obtain ⟨old, earlier, rfl⟩ := live
    exact ⟨climbs, old, earlier, rfl⟩

theorem kept_node (climbs : ¬ before.Climbs u v) {old : Node α}
    (live : before.node? u = some old) :
    after.node? u = some { old with children := old.children.filter (·.2 != v) } := by
  rw [cut.kept u climbs, live, Option.map_some]

theorem mem_children_iff {place : Nat × Nat} : place ∈ after.children u ↔
    ¬ before.Climbs u v ∧ place ∈ before.children u ∧ place.2 ≠ v := by
  by_cases climbs : before.Climbs u v
  · simp [children, cut.gone u climbs, climbs]
  · rw [children, children, cut.kept u climbs]
    cases before.node? u <;> simp [climbs]

theorem held?_eq (climbs : ¬ before.Climbs u v) : after.held? u = before.held? u := by
  rw [held?, held?, cut.kept u climbs]
  cases before.node? u <;> rfl

theorem isFork_eq (climbs : ¬ before.Climbs u v) : after.isFork u = before.isFork u := by
  rw [Trie.isFork_eq, Trie.isFork_eq, cut.held?_eq climbs]

private theorem linked_child (linked : before.Linked) (live : after.node? u = some node) :
    ∀ place ∈ node.children, ∃ below, after.node? place.2 = some below ∧
      below.parent = some u ∧ (node.vertex.isFork = true → below.vertex.isFork = false) := by
  intro place member
  obtain ⟨climbs, old, earlier, rfl⟩ := cut.node_cases live
  obtain ⟨member, other⟩ := List.mem_filter.mp member
  have other : place.2 ≠ v := by simpa using other
  obtain ⟨below, found, pointed, entries⟩ := linked.child u old earlier place member
  -- A child that goes with the subtree without being its top hangs from one that goes too.
  have stays : ¬ before.Climbs place.2 v := fun further =>
    climbs (further.of_ne other (by rw [above?_of_node? found, pointed]))
  exact ⟨_, cut.kept_node stays found, pointed, entries⟩

/-- Whatever is cut off below the root, the rest hangs together as before. -/
theorem linked (linked : before.Linked) (inner : v ≠ root) : after.Linked := by
  have distinct : ∀ u node, after.node? u = some node →
      node.children.Pairwise fun one other => one.1 ≠ other.1 ∧ one.2 ≠ other.2 := by
    intro u node live
    obtain ⟨_, old, earlier, rfl⟩ := cut.node_cases live
    exact (linked.distinct u old earlier).filter _
  refine ⟨cut.tidy, ?_, ?_, ?_, fun u node live => cut.linked_child linked live, distinct, ?_⟩
  · obtain ⟨top, live, entry, orphan⟩ := linked.root
    have stays : ¬ before.Climbs Trie.root v := fun climbs =>
      inner (linked.climbs_root_iff.mp climbs)
    exact ⟨_, cut.kept_node stays live, entry, orphan⟩
  · intro u node live orphan
    obtain ⟨_, old, earlier, rfl⟩ := cut.node_cases live
    exact linked.orphan u old earlier orphan
  · intro u node above live pointed
    obtain ⟨climbs, old, earlier, rfl⟩ := cut.node_cases live
    have hangs : before.above? u = some above := by rw [above?_of_node? earlier]; exact pointed
    have stays : ¬ before.Climbs above v := fun further => climbs (.head hangs further)
    obtain ⟨key, member⟩ := linked.above?_eq_some_iff.mp hangs
    have other : u ≠ v := fun same => climbs (same ▸ .refl)
    have member : (key, u) ∈ after.children above := cut.mem_children_iff.mpr ⟨stays, member, other⟩
    obtain ⟨node, live⟩ := live_of_mem_children member
    refine ⟨key, child?_of_mem live ((distinct above node live).imp And.left) ?_⟩
    rwa [children_of_node? live] at member
  · obtain ⟨depth, deeper⟩ := linked.depth
    refine ⟨depth, fun u node above live pointed => ?_⟩
    obtain ⟨_, old, earlier, rfl⟩ := cut.node_cases live
    exact deeper u old above earlier pointed

/-- The places that stay are those of other vertices than the one cut off, above it or beside. -/
theorem child?_eq_some_iff (linked : before.Linked) {key child : Nat} :
    after.child? u key = some child ↔
      ¬ before.Climbs u v ∧ before.child? u key = some child ∧ child ≠ v := by
  constructor
  · intro found
    obtain ⟨node, live, member⟩ := mem_of_child? found
    obtain ⟨climbs, old, earlier, rfl⟩ := cut.node_cases live
    obtain ⟨member, other⟩ := List.mem_filter.mp member
    have distinct := (linked.distinct u old earlier).imp And.left
    exact ⟨climbs, child?_of_mem earlier distinct member, by simpa using other⟩
  · rintro ⟨climbs, found, other⟩
    obtain ⟨old, earlier, member⟩ := mem_of_child? found
    have distinct := (linked.distinct u old earlier).imp And.left
    refine child?_of_mem (cut.kept_node climbs earlier) (distinct.filter _) ?_
    exact List.mem_filter.mpr ⟨member, by simpa using other⟩

end Cut

/-! ## Forks -/

/-- If the vertex is a fork, something hangs from it. -/
def Bears (trie : Trie α) (v : Nat) : Prop := trie.isFork v = true → trie.children v ≠ []

/-- A linked tree without empty forks. -/
structure Proper (trie : Trie α) : Prop where
  linked : trie.Linked
  bears : ∀ v, trie.Bears v

theorem isFork_of_node? (live : trie.node? v = some node) : trie.isFork v = node.vertex.isFork := by
  simp [isFork, live]

/-- Forks hang from entries. -/
theorem Linked.not_isFork_above (linked : trie.Linked) (isFork : trie.isFork v = true)
    (hangs : trie.above? v = some u) : trie.isFork u = false := by
  obtain ⟨key, member⟩ := linked.above?_eq_some_iff.mp hangs
  obtain ⟨node, live⟩ := live_of_mem_children member
  rw [children_of_node? live] at member
  obtain ⟨below, found, _, entries⟩ := linked.child u node live (key, v) member
  rw [isFork_of_node? found] at isFork
  cases fork : node.vertex.isFork with
  | false => rw [isFork_of_node? live, fork]
  | true =>
      rw [entries fork] at isFork
      cases isFork

theorem Cut.bears (cut : before.Cut v after) (linked : before.Linked) (bears : before.Bears u)
    (elsewhere : before.isFork u = true → before.above? v ≠ some u) : after.Bears u := by
  intro fork
  by_cases climbs : before.Climbs u v
  · simp [isFork, cut.gone u climbs] at fork
  · rw [cut.isFork_eq climbs] at fork
    have same : after.children u = before.children u := by
      rw [children, children, cut.kept u climbs]
      cases live : before.node? u with
      | none => rfl
      | some node => simp [linked.filter_children_eq (elsewhere fork) live]
    rw [same]
    exact bears fork

/-- A fork with nothing below is alone in its subtree. -/
theorem Linked.climbs_iff_of_empty (linked : trie.Linked) (empty : trie.children v = []) :
    trie.Climbs u v ↔ u = v := by
  rw [linked.climbs_iff, below, empty]
  simp [Beneath]

/-- The tree after a vertex was erased: the vertex is cut off, and then the fork that this empties. -/
inductive Erased (before : Trie α) (v : Nat) (after : Trie α) : Prop where
  | one (cut : before.Cut v after)
      (filled : ∀ fork, before.above? v = some fork → after.Bears fork)
  | both {fork : Nat} {middle : Trie α} (cut : before.Cut v middle)
      (hangs : before.above? v = some fork) (isFork : before.isFork fork = true)
      (empty : middle.children fork = []) (cutFork : middle.Cut fork after)

theorem erase_eq_ok (linked : trie.Linked) (inner : v ≠ root) (live : trie.node? v = some node) :
    ∃ count after, trie.erase v = .ok (count, after) ∧ trie.Erased v after := by
  obtain ⟨nodup, listed⟩ := linked.subtree_spec live
  have cut := linked.cut live nodup listed
  generalize given : (trie.subtree v).foldl release (trie.detach v) = remaining at cut
  cases pointed : node.parent with
  | none => exact absurd (linked.orphan v node live pointed) inner
  | some parent =>
      have hangs : trie.above? v = some parent := by rw [above?_of_node? live, pointed]
      by_cases emptied : trie.isFork parent = true ∧ remaining.children parent = []
      · have success : trie.erase v =
            .ok ((trie.subtree v).length, (remaining.detach parent).release parent) := by
          rw [erase, if_neg inner, Trie.node, live]
          simp [given, pointed, emptied]
        have stays : ¬ trie.Climbs parent v := linked.not_climbs_above hangs
        obtain ⟨above, found⟩ := linked.live_above hangs
        have remainingLinked := cut.linked linked inner
        have listed : ∀ u, u ∈ [parent] ↔ remaining.Climbs u parent := fun u =>
          List.mem_singleton.trans (remainingLinked.climbs_iff_of_empty emptied.2).symm
        have cutFork := remainingLinked.cut (cut.kept_node stays found)
          (List.nodup_singleton parent) listed
        exact ⟨_, _, success, .both cut hangs emptied.1 emptied.2 cutFork⟩
      · have success : trie.erase v = .ok ((trie.subtree v).length, remaining) := by
          rw [erase, if_neg inner, Trie.node, live]
          simp [given, pointed, emptied]
        refine ⟨_, _, success, .one cut fun fork above isFork empty => emptied ?_⟩
        obtain rfl : fork = parent := Option.some.inj (above.symm.trans hangs)
        rw [cut.isFork_eq (linked.not_climbs_above hangs)] at isFork
        exact ⟨isFork, empty⟩

theorem erase_cases (linked : before.Linked) {count : Nat}
    (success : before.erase v = .ok (count, after)) :
    v ≠ root ∧ (∃ node, before.node? v = some node) ∧ before.Erased v after := by
  by_cases top : v = root
  · rw [erase, if_pos top] at success
    cases success
  · cases live : before.node? v with
    | none =>
        rw [erase, if_neg top, Trie.node, live] at success
        cases success
    | some node =>
        obtain ⟨_, _, same, erased⟩ := erase_eq_ok linked top live
        rw [success] at same
        cases same
        exact ⟨top, ⟨node, rfl⟩, erased⟩

/-- The rest of the tree stays in order, whether or not a fork is left empty. -/
theorem Erased.proper (erased : before.Erased v after) (proper : before.Proper)
    (inner : v ≠ root) : after.Proper := by
  obtain ⟨linked, bears⟩ := proper
  cases erased with
  | one cut filled =>
      refine ⟨cut.linked linked inner, fun u => ?_⟩
      by_cases above : before.above? v = some u
      · exact filled u above
      · exact cut.bears linked (bears u) fun _ => above
  | @both fork middle cut hangs isFork _ cutFork =>
      have middleLinked := cut.linked linked inner
      have notRoot : fork ≠ root := by
        obtain ⟨top, live, entry, _⟩ := linked.root
        rintro rfl
        rw [isFork_of_node? live, entry] at isFork
        cases isFork
      refine ⟨cutFork.linked middleLinked notRoot, fun u => ?_⟩
      by_cases above : before.above? v = some u
      · -- The fork above is gone.
        obtain rfl : u = fork := Option.some.inj (above.symm.trans hangs)
        intro isFork'
        simp [Trie.isFork, cutFork.gone u .refl] at isFork'
      · refine cutFork.bears middleLinked (cut.bears linked (bears u) fun _ => above) ?_
        intro isFork' hangs'
        rw [← cut.isFork_eq (linked.not_climbs_above hangs)] at isFork
        rw [middleLinked.not_isFork_above isFork hangs'] at isFork'
        cases isFork'

end TeamPlanning.Trie
