import Mathlib.Data.List.Pairwise
import TeamPlanning.Proofs.Outcome
import TeamPlanning.Trie.Edit

/-! # How the vertices of a tree hang together

A tree is seen through two questions: what a vertex holds, and what hangs from it under a key. In a
linked tree every vertex but the root hangs from exactly one vertex under exactly one key, there are
no cycles, and nothing but entries hangs from a fork. Hanging a new vertex changes one answer. -/

set_option autoImplicit false

namespace TeamPlanning.Trie

variable {α : Type} {trie : Trie α} {v u key child : Nat} {node : Node α} {letter : Letter}

/-! ## What a tree holds -/

def held? (trie : Trie α) (v : Nat) : Option (Vertex α) := (trie.node? v).map (·.vertex)

/-- The vertex that a letter leads to. -/
def step? (trie : Trie α) (v : Nat) : Letter → Option Nat
  | .one key => trie.child? v key
  | .pair action observation =>
      (trie.child? v action).bind fun fork =>
        if trie.isFork fork then trie.child? fork observation else none

theorem held?_of_node? (found : trie.node? v = some node) : trie.held? v = some node.vertex := by
  rw [held?, found]
  rfl

theorem node?_of_held? {vertex : Vertex α} (held : trie.held? v = some vertex) :
    ∃ node, trie.node? v = some node ∧ node.vertex = vertex :=
  Option.map_eq_some_iff.mp held

theorem node?_of_node (found : trie.node v = .ok node) : trie.node? v = some node := by
  unfold Trie.node at found
  split at found
  · cases found
    assumption
  · cases found

theorem isFork_eq (trie : Trie α) (v : Nat) : trie.isFork v = (trie.held? v).any (·.isFork) := by
  rw [isFork, held?]
  cases trie.node? v <;> rfl

theorem vertex_of_held? {vertex : Vertex α} (held : trie.held? v = some vertex) :
    trie.vertex v = .ok vertex := by
  obtain ⟨node, found, rfl⟩ := node?_of_held? held
  rw [Trie.vertex, Trie.node, found]
  rfl

theorem value_of_held? {index : Option Nat} {value : α}
    (held : trie.held? v = some (.entry index value)) : trie.value v = .ok value := by
  rw [Trie.value, bind_of_eq_ok (vertex_of_held? held)]
  rfl

theorem index_of_held? {index : Nat} {value : α}
    (held : trie.held? v = some (.entry (some index) value)) : trie.index v = .ok index := by
  rw [Trie.index, bind_of_eq_ok (vertex_of_held? held)]
  rfl

/-- From an entry, letters are followed step by step. -/
theorem successor_answers {index : Option Nat} {value : α}
    (held : trie.held? v = some (.entry index value)) (letter : Letter) :
    Answers (trie.successor v letter) (trie.step? v letter) := by
  unfold Trie.successor
  rw [bind_of_eq_ok (vertex_of_held? held)]
  simp only [Vertex.isFork, Bool.false_eq_true, ↓reduceIte]
  cases letter with
  | one key =>
      simp only [step?]
      cases trie.child? v key with
      | none => exact ⟨_, rfl⟩
      | some next => exact rfl
  | pair action observation =>
      simp only [step?]
      cases trie.child? v action with
      | none => exact ⟨_, rfl⟩
      | some fork =>
          simp only [Option.bind_some]
          cases (if trie.isFork fork = true then trie.child? fork observation else none) with
          | none => exact ⟨_, rfl⟩
          | some next => exact rfl

theorem mem_of_child? (found : trie.child? v key = some child) :
    ∃ node, trie.node? v = some node ∧ (key, child) ∈ node.children := by
  obtain ⟨place, selected, rfl⟩ := Option.map_eq_some_iff.mp found
  have member := List.mem_of_find?_eq_some selected
  have equal : place.1 = key := by simpa using List.find?_some selected
  subst equal
  unfold children at member
  cases live : trie.node? v with
  | none => simp [live] at member
  | some node =>
      rw [live] at member
      exact ⟨node, rfl, member⟩

theorem child?_of_dead (dead : trie.node? v = none) (key : Nat) : trie.child? v key = none := by
  simp [child?, children, dead]

/-! ## Linked trees -/

/-- The numbers given up are not in use, and each is given up once. -/
structure Tidy (trie : Trie α) : Prop where
  nodup : trie.free.Nodup
  dead : ∀ v ∈ trie.free, v < trie.slots.size ∧ trie.node? v = none

/-- Parents and children point to each other. -/
structure Linked (trie : Trie α) : Prop where
  tidy : trie.Tidy
  root : ∃ node, trie.node? root = some node ∧ node.vertex.isFork = false ∧ node.parent = none
  orphan : ∀ v node, trie.node? v = some node → node.parent = none → v = Trie.root
  parent : ∀ v node above, trie.node? v = some node → node.parent = some above →
    ∃ key, trie.child? above key = some v
  child : ∀ v node, trie.node? v = some node → ∀ place ∈ node.children,
    ∃ below, trie.node? place.2 = some below ∧ below.parent = some v ∧
      (node.vertex.isFork = true → below.vertex.isFork = false)
  distinct : ∀ v node, trie.node? v = some node →
    node.children.Pairwise fun one other => one.1 ≠ other.1 ∧ one.2 ≠ other.2
  depth : ∃ depth : Nat → Nat, ∀ v node above, trie.node? v = some node →
    node.parent = some above → depth above < depth v

namespace Linked

theorem live_of_child? (linked : trie.Linked) (found : trie.child? v key = some child) :
    ∃ below, trie.node? child = some below ∧ below.parent = some v := by
  obtain ⟨node, live, member⟩ := mem_of_child? found
  obtain ⟨below, present, above, _⟩ := linked.child v node live (key, child) member
  exact ⟨below, present, above⟩

theorem child?_injective (linked : trie.Linked) {key' : Nat}
    (found : trie.child? v key = some child) (found' : trie.child? u key' = some child) :
    v = u ∧ key = key' := by
  obtain ⟨below, present, above⟩ := linked.live_of_child? found
  obtain ⟨below', present', above'⟩ := linked.live_of_child? found'
  obtain rfl : below = below' := Option.some.inj (present.symm.trans present')
  obtain rfl : v = u := Option.some.inj (above.symm.trans above')
  obtain ⟨node, live, member⟩ := mem_of_child? found
  obtain ⟨node', live', member'⟩ := mem_of_child? found'
  obtain rfl : node = node' := Option.some.inj (live.symm.trans live')
  refine ⟨rfl, ?_⟩
  by_contra different
  have : Std.Symm fun one other : Nat × Nat => one.1 ≠ other.1 ∧ one.2 ≠ other.2 :=
    ⟨fun _ _ both => ⟨both.1.symm, both.2.symm⟩⟩
  have apart := (linked.distinct v node live).forall member member' (by simp [different])
  exact apart.2 rfl

end Linked

section Singleton

variable {value : α}

theorem node?_singleton_eq_some_iff :
    (singleton value).node? v = some node ↔ v = root ∧ node = ⟨.entry none value, none, []⟩ := by
  cases v with
  | zero => simp [singleton, node?, root, eq_comm]
  | succ v => simp [singleton, node?, root]

theorem child?_singleton (v key : Nat) : (singleton value).child? v key = none := by
  cases v <;> simp [child?, children, singleton, node?]

/-- The tree of one value is linked for want of links. -/
theorem linked_singleton : (singleton value).Linked := by
  refine ⟨⟨.nil, fun v member => by cases member⟩,
    ⟨_, node?_singleton_eq_some_iff.mpr ⟨rfl, rfl⟩, rfl, rfl⟩, ?_, ?_, ?_, ?_, id, ?_⟩
  · intro v node live _
    exact (node?_singleton_eq_some_iff.mp live).1
  all_goals intro v node
  · intro above live pointed
    rw [(node?_singleton_eq_some_iff.mp live).2] at pointed
    cases pointed
  · intro live place member
    rw [(node?_singleton_eq_some_iff.mp live).2] at member
    cases member
  · intro live
    rw [(node?_singleton_eq_some_iff.mp live).2]
    exact .nil
  · intro above live pointed
    rw [(node?_singleton_eq_some_iff.mp live).2] at pointed
    cases pointed

end Singleton

/-! ## Hanging a vertex -/

theorem lt_size_of_node? (found : trie.node? v = some node) : v < trie.slots.size := by
  by_contra beyond
  have absent : trie.slots[v]? = none := Array.getElem?_eq_none (Nat.le_of_not_lt beyond)
  simp [node?, absent] at found

theorem node?_put (inside : v < trie.slots.size) (node : Option (Node α)) (u : Nat) :
    (trie.put v node).node? u = if u = v then node else trie.node? u := by
  by_cases same : u = v
  · subst same
    simp [put, node?, inside]
  · simp [put, node?, same, Ne.symm same]

/-- Changing a live vertex leaves the numbers given up as they are. -/
theorem Tidy.put (tidy : trie.Tidy) (live : trie.node? v = some node) (other : Node α) :
    (trie.put v (some other)).Tidy := by
  refine ⟨tidy.nodup, fun u member => ?_⟩
  have unused := tidy.dead u member
  refine ⟨by simpa [Trie.put] using unused.1, ?_⟩
  rw [node?_put (lt_size_of_node? live), if_neg]
  · exact unused.2
  · intro same
    subst same
    rw [live] at unused
    cases unused.2

/-- A new vertex takes a number that is not in use. -/
theorem allocate_spec (tidy : trie.Tidy) (node : Node α) :
    trie.node? (trie.allocate node).1 = none ∧
      (∀ u, (trie.allocate node).2.node? u =
        if u = (trie.allocate node).1 then some node else trie.node? u) ∧
      (trie.allocate node).2.Tidy := by
  unfold allocate
  cases given : trie.free with
  | nil =>
      refine ⟨?_, fun u => ?_, ?_⟩
      · simp [node?]
      · by_cases last : u = trie.slots.size
        · simp [node?, last]
        · have pushed : (trie.slots.push (some node))[u]? = trie.slots[u]? := by
            simp [Array.getElem?_push, last]
          simp [node?, pushed, last]
      · exact ⟨by simp, by simp⟩
  | cons w free =>
      have unused := tidy.dead w (by simp [given])
      have nodup := tidy.nodup
      rw [given] at nodup
      obtain ⟨fresh, nodup⟩ := List.nodup_cons.mp nodup
      have nodes : ∀ u, ({ trie.put w (some node) with free } : Trie α).node? u =
          if u = w then some node else trie.node? u := node?_put unused.1 (some node)
      refine ⟨unused.2, nodes, nodup, fun u member => ?_⟩
      have other : u ≠ w := fun same => fresh (same ▸ member)
      have before := tidy.dead u (by simp [given, member])
      refine ⟨by simpa [put] using before.1, ?_⟩
      rw [nodes, if_neg other]
      exact before.2

/-- The tree after a new vertex was hung from `v` under a key. -/
structure Hung (before : Trie α) (v key : Nat) (vertex : Vertex α) (child : Nat)
    (after : Trie α) : Prop where
  fresh : before.node? child = none
  tidy : after.Tidy
  nodes : ∃ node, before.node? v = some node ∧ ∀ u, after.node? u =
    if u = v then some { node with children := (key, child) :: node.children }
    else if u = child then some ⟨vertex, some v, []⟩
    else before.node? u

theorem link_eq_ok (tidy : trie.Tidy) (live : trie.node? v = some node)
    (vacant : trie.child? v key = none) (vertex : Vertex α) :
    ∃ child after, trie.link v key vertex = .ok (child, after) ∧
      trie.Hung v key vertex child after := by
  obtain ⟨fresh, nodes, allocated⟩ := allocate_spec tidy ⟨vertex, some v, []⟩
  have other : v ≠ (trie.allocate ⟨vertex, some v, []⟩).1 := by
    intro same
    rw [← same, live] at fresh
    cases fresh
  have found : (trie.allocate ⟨vertex, some v, []⟩).2.node? v = some node := by
    rw [nodes, if_neg other, live]
  have linked : trie.link v key vertex = .ok ((trie.allocate ⟨vertex, some v, []⟩).1,
      (trie.allocate ⟨vertex, some v, []⟩).2.put v
        (some { node with children := (key, (trie.allocate ⟨vertex, some v, []⟩).1) ::
          node.children })) := by
    rw [link, Trie.node, live, vacant]
    rfl
  generalize trie.allocate ⟨vertex, some v, []⟩ = pair at fresh nodes allocated other found linked
  obtain ⟨child, middle⟩ := pair
  have inside := lt_size_of_node? found
  refine ⟨child, _, linked, fresh, allocated.put found _, node, live, fun u => ?_⟩
  rw [node?_put inside]
  by_cases here : u = v
  · simp [here]
  · simp only [here, ↓reduceIte, nodes]

namespace Hung

variable {before after : Trie α} {vertex : Vertex α}

theorem ne_child (hung : before.Hung v key vertex child after)
    (live : before.node? u = some node) : u ≠ child := by
  intro same
  subst same
  rw [hung.fresh] at live
  cases live

theorem child_ne (hung : before.Hung v key vertex child after) : child ≠ v := by
  obtain ⟨node, live, _⟩ := hung.nodes
  exact (hung.ne_child live).symm

theorem node?_child (hung : before.Hung v key vertex child after) :
    after.node? child = some ⟨vertex, some v, []⟩ := by
  obtain ⟨_, _, nodes⟩ := hung.nodes
  rw [nodes, if_neg hung.child_ne, if_pos rfl]

theorem held?_eq (hung : before.Hung v key vertex child after) (u : Nat) :
    after.held? u = if u = child then some vertex else before.held? u := by
  obtain ⟨node, live, nodes⟩ := hung.nodes
  have apart := hung.child_ne
  rw [held?, held?, nodes]
  by_cases here : u = v
  · subst here
    rw [if_pos rfl, if_neg (Ne.symm apart), live]
    rfl
  · rw [if_neg here]
    split <;> rfl

theorem isFork_eq (hung : before.Hung v key vertex child after) (u : Nat) :
    after.isFork u = if u = child then vertex.isFork else before.isFork u := by
  rw [Trie.isFork_eq, Trie.isFork_eq, hung.held?_eq]
  split <;> rfl

theorem children_place (hung : before.Hung v key vertex child after) :
    after.children v = (key, child) :: before.children v := by
  obtain ⟨node, live, nodes⟩ := hung.nodes
  simp [children, nodes, live]

/-- One place is filled, and nothing else changes. -/
theorem child?_eq (hung : before.Hung v key vertex child after) (u key' : Nat) :
    after.child? u key' = if u = v ∧ key' = key then some child else before.child? u key' := by
  obtain ⟨node, live, nodes⟩ := hung.nodes
  have apart := hung.child_ne
  by_cases here : u = v
  · subst here
    rw [child?, hung.children_place, List.find?_cons]
    by_cases same : key' = key
    · simp [same]
    · have different : (key == key') = false := by simp [Ne.symm same]
      simp [same, different, child?]
  · rw [if_neg (fun both => here both.1)]
    by_cases new : u = child
    · subst new
      rw [child?_of_dead hung.fresh]
      simp [child?, children, nodes, here]
    · simp [child?, children, nodes, here, new]

/-- Vertices stay what they are, and hang where they hung. -/
theorem kept_node (hung : before.Hung v key vertex child after)
    (live : before.node? u = some node) : ∃ node', after.node? u = some node' ∧
      node'.vertex = node.vertex ∧ node'.parent = node.parent := by
  obtain ⟨above, found, nodes⟩ := hung.nodes
  rw [nodes]
  by_cases here : u = v
  · subst here
    obtain rfl : above = node := Option.some.inj (found.symm.trans live)
    exact ⟨_, if_pos rfl, rfl, rfl⟩
  · exact ⟨node, by rw [if_neg here, if_neg (hung.ne_child live), live], rfl, rfl⟩

theorem node_cases (hung : before.Hung v key vertex child after)
    (live : after.node? u = some node) :
    (u = child ∧ node = ⟨vertex, some v, []⟩) ∨
      ∃ old, before.node? u = some old ∧ node.vertex = old.vertex ∧ node.parent = old.parent ∧
        (node.children = old.children ∨
          u = v ∧ node.children = (key, child) :: old.children) := by
  obtain ⟨above, found, nodes⟩ := hung.nodes
  rw [nodes] at live
  split at live
  · rename_i here
    subst here
    cases live
    exact .inr ⟨above, found, rfl, rfl, .inr ⟨rfl, rfl⟩⟩
  · split at live
    · rename_i new
      cases live
      exact .inl ⟨new, rfl⟩
    · exact .inr ⟨node, live, rfl, rfl, .inl rfl⟩

section Linked

variable (hung : before.Hung v key vertex child after) (linked : before.Linked)
include hung linked

private theorem linked_parent (vacant : before.child? v key = none) {above : Nat}
    (live : after.node? u = some node) (pointed : node.parent = some above) :
    ∃ key, after.child? above key = some u := by
  rcases hung.node_cases live with ⟨rfl, rfl⟩ | ⟨old, earlier, _, sameParent, _⟩
  · cases pointed
    exact ⟨key, by rw [hung.child?_eq, if_pos ⟨rfl, rfl⟩]⟩
  · obtain ⟨key', found⟩ := linked.parent u old above earlier (by rw [← sameParent, pointed])
    refine ⟨key', ?_⟩
    rw [hung.child?_eq, if_neg]
    · exact found
    · intro given
      obtain ⟨rfl, rfl⟩ := given
      rw [vacant] at found
      cases found

private theorem linked_child (allowed : before.isFork v = true → vertex.isFork = false)
    (live : after.node? u = some node) :
    ∀ place ∈ node.children, ∃ below, after.node? place.2 = some below ∧
      below.parent = some u ∧ (node.vertex.isFork = true → below.vertex.isFork = false) := by
  intro place member
  rcases hung.node_cases live with ⟨rfl, rfl⟩ | ⟨old, earlier, sameVertex, _, places⟩
  · cases member
  · have inherited : ∀ place ∈ old.children, ∃ below, after.node? place.2 = some below ∧
        below.parent = some u ∧ (node.vertex.isFork = true → below.vertex.isFork = false) := by
      intro place member
      obtain ⟨below, found, pointed, entries⟩ := linked.child u old earlier place member
      obtain ⟨below', found', sameVertex', sameParent'⟩ := hung.kept_node found
      refine ⟨below', found', by rw [sameParent', pointed], ?_⟩
      rw [sameVertex, sameVertex']
      exact entries
    rcases places with same | ⟨rfl, more⟩
    · exact inherited place (same ▸ member)
    · rw [more] at member
      rcases List.mem_cons.mp member with rfl | member
      · refine ⟨_, hung.node?_child, rfl, fun fork => allowed ?_⟩
        rw [Trie.isFork_eq, held?_of_node? earlier, ← sameVertex]
        exact fork
      · exact inherited place member

private theorem linked_distinct (vacant : before.child? v key = none)
    (live : after.node? u = some node) :
    node.children.Pairwise fun one other => one.1 ≠ other.1 ∧ one.2 ≠ other.2 := by
  rcases hung.node_cases live with ⟨_, rfl⟩ | ⟨old, earlier, _, _, places⟩
  · exact .nil
  · have different := linked.distinct u old earlier
    rcases places with same | ⟨rfl, more⟩
    · rw [same]
      exact different
    · rw [more]
      refine List.pairwise_cons.mpr ⟨fun place member => ⟨?_, ?_⟩, different⟩
      · intro same
        have taken : before.child? u key ≠ none := by
          simp only [child?, children, earlier, ne_eq, Option.map_eq_none_iff, List.find?_eq_none]
          intro absent
          exact absent place (by simpa using member) (by simpa using same.symm)
        exact taken vacant
      · -- The new vertex hung nowhere before.
        obtain ⟨below, found, _⟩ := linked.child u old earlier place member
        exact (hung.ne_child found).symm

private theorem linked_depth : ∃ depth : Nat → Nat, ∀ u node above, after.node? u = some node →
    node.parent = some above → depth above < depth u := by
  obtain ⟨depth, deeper⟩ := linked.depth
  refine ⟨fun u => if u = child then depth v + 1 else depth u, ?_⟩
  intro u node above live pointed
  rcases hung.node_cases live with ⟨rfl, rfl⟩ | ⟨old, earlier, _, sameParent, _⟩
  · cases pointed
    simp [hung.child_ne.symm]
  · have pointed' : old.parent = some above := by rw [← sameParent, pointed]
    obtain ⟨key', found⟩ := linked.parent u old above earlier pointed'
    -- Nothing hung from the new vertex before.
    have apart : above ≠ child := by
      intro same
      subst same
      rw [child?_of_dead hung.fresh] at found
      cases found
    simp only [hung.ne_child earlier, apart, ↓reduceIte]
    exact deeper u old above earlier pointed'

end Linked

theorem linked (hung : before.Hung v key vertex child after) (linked : before.Linked)
    (vacant : before.child? v key = none)
    (allowed : before.isFork v = true → vertex.isFork = false) : after.Linked := by
  refine ⟨hung.tidy, ?_, ?_, ?_, ?_, ?_, hung.linked_depth linked⟩
  · obtain ⟨top, present, entry, orphan⟩ := linked.root
    obtain ⟨top', present', sameVertex, sameParent⟩ := hung.kept_node present
    exact ⟨top', present', by rw [sameVertex, entry], by rw [sameParent, orphan]⟩
  · intro u node live orphan
    rcases hung.node_cases live with ⟨_, rfl⟩ | ⟨old, earlier, _, sameParent, _⟩
    · cases orphan
    · exact linked.orphan u old earlier (by rw [← sameParent, orphan])
  · exact fun u node above live pointed => hung.linked_parent linked vacant live pointed
  · exact fun u node live => hung.linked_child linked allowed live
  · exact fun u node live => hung.linked_distinct linked vacant live

end Hung

end TeamPlanning.Trie
