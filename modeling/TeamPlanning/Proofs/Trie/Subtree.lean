import Mathlib.Data.Set.Card
import Mathlib.Logic.Relation
import TeamPlanning.Proofs.Trie.Links

/-! # Ancestors and subtrees

Every vertex of a linked tree is climbed from in one way only, so two vertices have a common
descendant only if one of them is an ancestor of the other. The subtree of a vertex lists the
vertices from which one climbs to it, each once; the number of slots is a large enough bound. -/

set_option autoImplicit false

namespace TeamPlanning.Trie

variable {α : Type} {trie : Trie α} {v u w top : Nat} {node : Node α} {stack : List Nat}

/-- The vertex that a vertex hangs from. -/
def above? (trie : Trie α) (v : Nat) : Option Nat := (trie.node? v).bind (·.parent)

/-- From a vertex to itself, to the vertex it hangs from, and so on upwards. -/
def Climbs (trie : Trie α) : Nat → Nat → Prop :=
  Relation.ReflTransGen fun v above => trie.above? v = some above

theorem children_of_node? (live : trie.node? v = some node) : trie.children v = node.children := by
  simp [children, live]

theorem child?_of_mem {key child : Nat} (live : trie.node? v = some node)
    (distinct : node.children.Pairwise fun one other => one.1 ≠ other.1)
    (member : (key, child) ∈ node.children) : trie.child? v key = some child := by
  rw [child?, children_of_node? live]
  generalize node.children = places at distinct member
  induction places with
  | nil => cases member
  | cons place places ih =>
      obtain ⟨different, distinct⟩ := List.pairwise_cons.mp distinct
      rcases List.mem_cons.mp member with rfl | member
      · simp
      · have other : (place.1 == key) = false := by simpa using different _ member
        rw [List.find?_cons, other]
        exact ih distinct member

theorem live_of_mem_children {place : Nat × Nat} (member : place ∈ trie.children v) :
    ∃ node, trie.node? v = some node := by
  cases live : trie.node? v with
  | none => simp [children, live] at member
  | some node => exact ⟨node, rfl⟩

theorem above?_of_node? (live : trie.node? v = some node) : trie.above? v = node.parent := by
  simp [above?, live]

theorem live_of_above? (hangs : trie.above? u = some v) : ∃ node, trie.node? u = some node := by
  obtain ⟨node, live, _⟩ := Option.bind_eq_some_iff.mp hangs
  exact ⟨node, live⟩

namespace Climbs

theorem comparable (climbs : trie.Climbs u v) (climbs' : trie.Climbs u w) :
    trie.Climbs v w ∨ trie.Climbs w v :=
  Relation.ReflTransGen.total_of_right_unique
    (fun _ _ _ one other => Option.some.inj (one.symm.trans other)) climbs climbs'

theorem live (climbs : trie.Climbs u v) (present : ∃ node, trie.node? v = some node) :
    ∃ node, trie.node? u = some node := by
  rcases Relation.ReflTransGen.cases_head climbs with rfl | ⟨above, hangs, _⟩
  · exact present
  · exact live_of_above? hangs

/-- A climb that goes somewhere starts below the vertex that its start hangs from. -/
theorem of_ne (climbs : trie.Climbs u v) (apart : u ≠ v) (hangs : trie.above? u = some w) :
    trie.Climbs w v := by
  rcases Relation.ReflTransGen.cases_head climbs with same | ⟨above, hangs', further⟩
  · exact absurd same apart
  · obtain rfl : above = w := Option.some.inj (hangs'.symm.trans hangs)
    exact further

end Climbs

namespace Linked

variable (linked : trie.Linked)
include linked

theorem child?_eq_some_iff {key : Nat} :
    trie.child? v key = some u ↔ (key, u) ∈ trie.children v := by
  constructor
  · intro found
    obtain ⟨node, live, member⟩ := mem_of_child? found
    rwa [children_of_node? live]
  · intro member
    obtain ⟨node, live⟩ := live_of_mem_children member
    rw [children_of_node? live] at member
    exact child?_of_mem live ((linked.distinct v node live).imp And.left) member

theorem above?_eq_some_iff : trie.above? u = some v ↔ ∃ key, (key, u) ∈ trie.children v := by
  constructor
  · intro hangs
    obtain ⟨node, live, pointed⟩ := Option.bind_eq_some_iff.mp hangs
    obtain ⟨key, found⟩ := linked.parent u node v live pointed
    exact ⟨key, linked.child?_eq_some_iff.mp found⟩
  · intro given
    obtain ⟨key, member⟩ := given
    obtain ⟨node, live⟩ := live_of_mem_children member
    rw [children_of_node? live] at member
    obtain ⟨below, present, pointed, _⟩ := linked.child v node live (key, u) member
    rw [above?_of_node? present, pointed]

theorem above?_of_child? {key : Nat} (found : trie.child? v key = some u) :
    trie.above? u = some v := by
  obtain ⟨below, live, pointed⟩ := linked.live_of_child? found
  rw [above?_of_node? live, pointed]

theorem exists_child? (hangs : trie.above? u = some v) : ∃ key, trie.child? v key = some u := by
  obtain ⟨key, member⟩ := linked.above?_eq_some_iff.mp hangs
  exact ⟨key, linked.child?_eq_some_iff.mpr member⟩

theorem live_above (hangs : trie.above? u = some v) : ∃ node, trie.node? v = some node := by
  obtain ⟨key, member⟩ := linked.above?_eq_some_iff.mp hangs
  exact live_of_mem_children member

/-- There is no way back up to a vertex from the one that it hangs from. -/
theorem not_climbs_above (hangs : trie.above? v = some w) : ¬ trie.Climbs w v := by
  obtain ⟨depth, deeper⟩ := linked.depth
  have rises : ∀ u above, trie.above? u = some above → depth above < depth u := by
    intro u above hangs
    obtain ⟨node, live, pointed⟩ := Option.bind_eq_some_iff.mp hangs
    exact deeper u node above live pointed
  have higher : ∀ u top, trie.Climbs u top → depth top ≤ depth u := by
    intro u top climbs
    induction climbs with
    | refl => exact Nat.le_refl _
    | tail _ hangs ih => exact Nat.le_trans (Nat.le_of_lt (rises _ _ hangs)) ih
  exact fun climbs => absurd (rises v w hangs) (Nat.not_lt.mpr (higher w v climbs))

theorem above?_root : trie.above? Trie.root = none := by
  obtain ⟨node, live, _, orphan⟩ := linked.root
  rw [above?_of_node? live, orphan]

theorem exists_above (live : trie.node? v = some node) (inner : v ≠ Trie.root) :
    ∃ above, trie.above? v = some above := by
  cases pointed : node.parent with
  | none => exact absurd (linked.orphan v node live pointed) inner
  | some above => exact ⟨above, by rw [above?_of_node? live, pointed]⟩

theorem ne_root_of_above? (hangs : trie.above? u = some v) : u ≠ Trie.root := by
  rintro rfl
  rw [linked.above?_root] at hangs
  cases hangs

theorem climbs_root_iff : trie.Climbs Trie.root v ↔ v = Trie.root := by
  constructor
  · intro climbs
    rcases Relation.ReflTransGen.cases_head climbs with same | ⟨above, hangs, _⟩
    · exact same.symm
    · rw [linked.above?_root] at hangs
      cases hangs
  · rintro rfl
    exact .refl

/-- All vertices hang together: from each of them one climbs to the root. -/
theorem climbs_to_root (present : ∃ node, trie.node? v = some node) : trie.Climbs v Trie.root := by
  obtain ⟨depth, deeper⟩ := linked.depth
  -- The vertex above is less deep, and only the root has none above it.
  induction measured : depth v using Nat.strong_induction_on generalizing v with
  | _ level ih =>
      obtain ⟨node, live⟩ := present
      cases pointed : node.parent with
      | none =>
          rw [linked.orphan v node live pointed]
          exact .refl
      | some above =>
          have hangs : trie.above? v = some above := by rw [above?_of_node? live, pointed]
          have higher := deeper v node above live pointed
          exact .head hangs (ih (depth above) (by omega) (linked.live_above hangs) rfl)

end Linked

/-! ## Listing a subtree -/

/-- The vertices on the stack and all that hang from them. -/
def Beneath (trie : Trie α) (stack : List Nat) : Set Nat :=
  {u | ∃ top ∈ stack, trie.Climbs u top}

/-- No vertex has both as ancestors. -/
def Apart (trie : Trie α) (v w : Nat) : Prop := ∀ u, trie.Climbs u v → ¬ trie.Climbs u w

theorem mem_beneath_cons :
    u ∈ trie.Beneath (v :: stack) ↔ trie.Climbs u v ∨ u ∈ trie.Beneath stack :=
  List.exists_mem_cons_iff ..

theorem mem_beneath_append {stack' : List Nat} :
    u ∈ trie.Beneath (stack ++ stack') ↔ u ∈ trie.Beneath stack ∨ u ∈ trie.Beneath stack' := by
  induction stack with
  | nil => simp [Beneath]
  | cons v stack ih => rw [List.cons_append, mem_beneath_cons, mem_beneath_cons, ih, or_assoc]

theorem beneath_subset (present : ∀ top ∈ stack, ∃ node, trie.node? top = some node) :
    trie.Beneath stack ⊆ Finset.range trie.slots.size := by
  rintro u ⟨top, member, climbs⟩
  obtain ⟨node, live⟩ := climbs.live (present top member)
  exact Finset.mem_coe.mpr (Finset.mem_range.mpr (lt_size_of_node? live))

/-- The vertices below one vertex, each in place of its key. -/
def below (trie : Trie α) (v : Nat) : List Nat := ((trie.children v).map (·.2)).reverse

namespace Linked

variable (linked : trie.Linked)
include linked

theorem mem_below_iff : u ∈ trie.below v ↔ trie.above? u = some v := by
  rw [linked.above?_eq_some_iff]
  simp [below]

theorem below_apart : (trie.below v).Pairwise trie.Apart := by
  have different : (trie.below v).Nodup := by
    cases live : trie.node? v with
    | none => simp [below, children, live]
    | some node =>
        have distinct := linked.distinct v node live
        rw [below, children_of_node? live, List.nodup_reverse, List.Nodup, List.pairwise_map]
        exact distinct.imp And.right
  refine different.imp_of_mem fun {one other} member member' unequal u climbs climbs' => ?_
  have hangs := linked.mem_below_iff.mp member
  have hangs' := linked.mem_below_iff.mp member'
  -- One of two siblings would be the other's ancestor, and so their parent its own.
  rcases climbs.comparable climbs' with further | further
  · exact linked.not_climbs_above hangs' (further.of_ne unequal hangs)
  · exact linked.not_climbs_above hangs (further.of_ne unequal.symm hangs')

theorem climbs_iff : trie.Climbs u v ↔ u = v ∨ u ∈ trie.Beneath (trie.below v) := by
  constructor
  · intro climbs
    rcases Relation.ReflTransGen.cases_tail climbs with same | ⟨child, further, hangs⟩
    · exact .inl same.symm
    · exact .inr ⟨child, linked.mem_below_iff.mpr hangs, further⟩
  · rintro (rfl | ⟨child, member, climbs⟩)
    · exact .refl
    · exact .tail climbs (linked.mem_below_iff.mp member)

theorem beneath_cons : trie.Beneath (v :: stack) =
    Insert.insert v (trie.Beneath (trie.below v ++ stack)) := by
  ext u
  rw [mem_beneath_cons, linked.climbs_iff, Set.mem_insert_iff, mem_beneath_append, or_assoc]

/-- A stack of vertices apart from each other is worked off, if the bound is not too small. -/
theorem descend_spec {bound : Nat} (present : ∀ top ∈ stack, ∃ node, trie.node? top = some node)
    (apart : stack.Pairwise trie.Apart) (enough : (trie.Beneath stack).ncard ≤ bound) :
    (trie.descend bound stack).Nodup ∧ ∀ u, u ∈ trie.descend bound stack ↔ u ∈ trie.Beneath stack := by
  have finite := (Finset.finite_toSet _).subset (beneath_subset present)
  induction bound generalizing stack with
  | zero =>
      have nothing := (Set.ncard_eq_zero finite).mp (Nat.le_zero.mp enough)
      rw [nothing]
      exact ⟨.nil, fun u => by simp [descend]⟩
  | succ bound ih =>
      cases stack with
      | nil => exact ⟨.nil, fun u => by simp [descend, Beneath]⟩
      | cons v stack =>
          obtain ⟨others, apart⟩ := List.pairwise_cons.mp apart
          obtain ⟨first, present⟩ := List.forall_mem_cons.mp present
          have present' : ∀ top ∈ trie.below v ++ stack, ∃ node, trie.node? top = some node := by
            intro top member
            rcases List.mem_append.mp member with member | member
            · exact live_of_above? (linked.mem_below_iff.mp member)
            · exact present top member
          have apart' : (trie.below v ++ stack).Pairwise trie.Apart := by
            refine List.pairwise_append.mpr ⟨linked.below_apart, apart, ?_⟩
            intro child member top member' u climbs
            have hangs := linked.mem_below_iff.mp member
            exact others top member' u (climbs.tail hangs)
          have fresh : v ∉ trie.Beneath (trie.below v ++ stack) := by
            rintro ⟨top, member, climbs⟩
            rcases List.mem_append.mp member with member | member
            · exact linked.not_climbs_above (linked.mem_below_iff.mp member) climbs
            · exact others top member v .refl climbs
          rw [linked.beneath_cons] at enough finite ⊢
          have finite' := finite.subset (Set.subset_insert _ _)
          rw [Set.ncard_insert_of_notMem fresh finite'] at enough
          obtain ⟨nodup, listed⟩ := ih present' apart' (by omega) finite'
          refine ⟨List.nodup_cons.mpr ⟨fun member => fresh ((listed v).mp member), nodup⟩, ?_⟩
          intro u
          exact List.mem_cons.trans (or_congr_right (listed u))

/-- The subtree of a vertex lists it and all that hang from it, each once. -/
theorem subtree_spec (live : trie.node? v = some node) :
    (trie.subtree v).Nodup ∧ ∀ u, u ∈ trie.subtree v ↔ trie.Climbs u v := by
  have present : ∀ top ∈ [v], ∃ node, trie.node? top = some node := by
    simp [live]
  have enough : (trie.Beneath [v]).ncard ≤ trie.slots.size := by
    have bounded := Set.ncard_le_ncard (beneath_subset present) (Finset.finite_toSet _)
    rwa [Set.ncard_coe_finset, Finset.card_range] at bounded
  obtain ⟨nodup, listed⟩ := linked.descend_spec present (List.pairwise_singleton _ _) enough
  exact ⟨nodup, fun u => (listed u).trans (by simp [Beneath])⟩

end Linked

end TeamPlanning.Trie
