import TeamPlanning.Proofs.Trie.Erase
import TeamPlanning.Proofs.Trie.Insert

/-! # Trees under edits

Whatever edits are asked of a tree, in whatever order and at whatever vertices, it stays a tree of two
levels: one edge leads to every vertex but the root, and a fork lies between entries. An edit that is
refused is refused before it changes anything. -/

set_option autoImplicit false

namespace TeamPlanning.Trie

variable {α : Type} {trie before after : Trie α} {v u child : Nat} {letter : Letter}

/-! ## What an edit that succeeds has done -/

theorem link_cases {key : Nat} {vertex : Vertex α} (tidy : trie.Tidy)
    (success : trie.link v key vertex = .ok (child, after)) :
    trie.child? v key = none ∧ trie.Hung v key vertex child after := by
  cases live : trie.node? v with
  | none =>
      rw [link, Trie.node, live] at success
      cases success
  | some node =>
      cases vacant : trie.child? v key with
      | some taken =>
          rw [link, Trie.node, live, vacant] at success
          cases success
      | none =>
          obtain ⟨_, _, same, hung⟩ := link_eq_ok tidy live vacant vertex
          rw [success] at same
          cases same
          exact ⟨rfl, hung⟩

theorem children_ne_nil_iff : trie.children v ≠ [] ↔ ∃ key child, trie.child? v key = some child := by
  constructor
  · intro filled
    obtain ⟨place, places, listed⟩ := List.exists_cons_of_ne_nil filled
    exact ⟨place.1, place.2, by simp [child?, listed]⟩
  · rintro ⟨key, child, found⟩ empty
    simp [child?, empty] at found

/-- The vertex that something was hung from is not empty, and what had children has them still. -/
theorem Hung.children_ne_nil {key : Nat} {vertex : Vertex α}
    (hung : before.Hung v key vertex child after) (filled : u = v ∨ before.children u ≠ []) :
    after.children u ≠ [] := by
  rw [children_ne_nil_iff]
  rcases filled with rfl | filled
  · exact ⟨key, child, by rw [hung.child?_eq, if_pos ⟨rfl, rfl⟩]⟩
  · obtain ⟨key', child', found⟩ := children_ne_nil_iff.mp filled
    by_cases here : u = v ∧ key' = key
    · exact ⟨key', child, by rw [hung.child?_eq, if_pos here]⟩
    · exact ⟨key', child', by rw [hung.child?_eq, if_neg here, found]⟩

theorem isEntry_of_node? {node : Node α} (live : trie.node? v = some node)
    (entry : node.vertex.isFork = false) : trie.IsEntry v := by
  cases holds : node.vertex with
  | entry index value => exact ⟨index, value, by rw [held?_of_node? live, holds]⟩
  | fork =>
      rw [holds] at entry
      cases entry

theorem isEntry_of_vertex {vertex : Vertex α} (found : trie.vertex v = .ok vertex)
    (entry : vertex.isFork = false) : trie.IsEntry v := by
  unfold Trie.vertex Trie.node at found
  cases live : trie.node? v with
  | none =>
      rw [live] at found
      cases found
  | some node =>
      rw [live] at found
      cases found
      exact isEntry_of_node? live entry

theorem forkAt_cases {action fork : Nat} (success : before.forkAt v action = .ok (fork, after)) :
    (after = before ∧ before.child? v action = some fork ∧ before.isFork fork = true) ∨
      (before.child? v action = none ∧ before.link v action .fork = .ok (fork, after)) := by
  unfold forkAt at success
  cases found : before.child? v action with
  | none =>
      rw [found] at success
      exact .inr ⟨rfl, success⟩
  | some taken =>
      simp only [found] at success
      split at success
      · rename_i isFork
        cases success
        exact .inl ⟨rfl, rfl, isFork⟩
      · cases success

theorem insert_cases {value : α} (success : before.insert v letter value = .ok (child, after)) :
    before.IsEntry v ∧ match letter with
      | .one key => before.link v key (.entry none value) = .ok (child, after)
      | .pair action observation => ∃ fork middle, before.forkAt v action = .ok (fork, middle) ∧
          middle.link fork observation (.entry none value) = .ok (child, after) := by
  unfold insert at success
  obtain ⟨vertex, found, success⟩ := bind_eq_ok_iff.mp success
  cases fork : vertex.isFork with
  | true =>
      simp only [fork, ↓reduceIte] at success
      cases success
  | false =>
      refine ⟨isEntry_of_vertex found fork, ?_⟩
      simp only [fork] at success
      cases letter with
      | one key => exact success
      | pair action observation =>
          obtain ⟨⟨fork, middle⟩, forked, success⟩ := bind_eq_ok_iff.mp success
          exact ⟨fork, middle, forked, success⟩

theorem successor_cases (success : trie.successor v letter = .ok child) :
    trie.IsEntry v ∧ trie.step? v letter = some child := by
  have given := success
  unfold Trie.successor at given
  obtain ⟨vertex, found, given⟩ := bind_eq_ok_iff.mp given
  cases fork : vertex.isFork with
  | true =>
      simp only [fork, ↓reduceIte] at given
      cases given
  | false =>
      obtain ⟨index, value, held⟩ := isEntry_of_vertex found fork
      exact ⟨⟨index, value, held⟩, (successor_answers held letter).eq_ok_iff.mp success⟩

theorem assign_cases {index : Nat} (success : before.assign v index = .ok after) :
    after = before ∨ ∃ value, before.Assigned v index value after := by
  cases live : before.node? v with
  | none =>
      rw [assign, Trie.node, live] at success
      cases success
  | some node =>
      cases holds : node.vertex with
      | fork =>
          rw [assign, Trie.node, live] at success
          simp only [bind, Except.bind, holds] at success
          cases success
      | entry held value =>
          cases held with
          | none =>
              obtain ⟨_, same, assigned⟩ :=
                assign_eq_ok (by rw [held?_of_node? live, holds]) index
              rw [success] at same
              cases same
              exact .inr ⟨value, assigned⟩
          | some held =>
              rw [assign, Trie.node, live] at success
              simp only [bind, Except.bind, holds] at success
              split at success
              · cases success
                exact .inl rfl
              · cases success

/-! ## Edits keep a tree in order -/

theorem link_entry_proper {key : Nat} {index : Option Nat} {value : α} (linked : before.Linked)
    (bears : ∀ u, u ≠ v → before.Bears u)
    (success : before.link v key (.entry index value) = .ok (child, after)) : after.Proper := by
  obtain ⟨vacant, hung⟩ := link_cases linked.tidy success
  refine ⟨hung.linked linked vacant fun _ => rfl, fun u isFork => ?_⟩
  rw [hung.isFork_eq] at isFork
  split at isFork
  · cases isFork
  · apply hung.children_ne_nil
    by_cases here : u = v
    · exact .inl here
    · exact .inr (bears u here isFork)

theorem insert_proper {value : α} (proper : before.Proper)
    (success : before.insert v letter value = .ok (child, after)) : after.Proper := by
  obtain ⟨linked, bears⟩ := proper
  obtain ⟨entry, filed⟩ := insert_cases success
  cases letter with
  | one key => exact link_entry_proper linked (fun u _ => bears u) filed
  | pair action observation =>
      obtain ⟨fork, middle, forked, filed⟩ := filed
      rcases forkAt_cases forked with ⟨rfl, _, _⟩ | ⟨_, made⟩
      · exact link_entry_proper linked (fun u _ => bears u) filed
      · -- The new fork is empty, but not for long.
        obtain ⟨vacant, hung⟩ := link_cases linked.tidy made
        have middleLinked := hung.linked_of_entry linked entry vacant
        refine link_entry_proper middleLinked (fun u other isFork => ?_) filed
        rw [hung.isFork_eq, if_neg other] at isFork
        exact hung.children_ne_nil (.inr (bears u isFork))

theorem Assigned.proper {index : Nat} {value : α} (assigned : before.Assigned v index value after)
    (proper : before.Proper) : after.Proper := by
  refine ⟨assigned.linked proper.linked, fun u isFork => ?_⟩
  rw [isFork_eq, assigned.held] at isFork
  split at isFork
  · cases isFork
  · rw [← isFork_eq] at isFork
    obtain ⟨key, child, found⟩ := children_ne_nil_iff.mp (proper.bears u isFork)
    refine children_ne_nil_iff.mpr ⟨key, child, ?_⟩
    exact (assigned.step u (.one key)).trans found

theorem assign_proper {index : Nat} (proper : before.Proper)
    (success : before.assign v index = .ok after) : after.Proper := by
  rcases assign_cases success with rfl | ⟨value, assigned⟩
  · exact proper
  · exact assigned.proper proper

theorem erase_proper {count : Nat} (proper : before.Proper)
    (success : before.erase v = .ok (count, after)) : after.Proper := by
  obtain ⟨inner, _, erased⟩ := erase_cases proper.linked success
  exact erased.proper proper inner

theorem replace_proper {value : α} (proper : before.Proper)
    (success : before.replace v letter value = .ok (child, after)) : after.Proper := by
  unfold replace at success
  split at success
  · obtain ⟨⟨count, remaining⟩, erased, success⟩ := bind_eq_ok_iff.mp success
    exact insert_proper (erase_proper proper erased) success
  · exact insert_proper proper success

theorem getOrInsert_proper {make : α → Except Fault (α × Nat)} (proper : before.Proper)
    (success : before.getOrInsert v letter make = .ok (child, after)) : after.Proper := by
  unfold getOrInsert at success
  split at success
  · cases success
    exact proper
  · obtain ⟨held, _, success⟩ := bind_eq_ok_iff.mp success
    obtain ⟨⟨value, index⟩, _, success⟩ := bind_eq_ok_iff.mp success
    obtain ⟨⟨new, filed⟩, inserted, success⟩ := bind_eq_ok_iff.mp success
    obtain ⟨numbered, assigned, success⟩ := bind_eq_ok_iff.mp success
    cases success
    exact assign_proper (insert_proper proper inserted) assigned

theorem proper_singleton (value : α) : (singleton value).Proper := by
  refine ⟨linked_singleton, fun v isFork => ?_⟩
  cases live : (singleton value).node? v with
  | none =>
      rw [isFork_eq, held?, live] at isFork
      cases isFork
  | some node =>
      obtain ⟨_, rfl⟩ := node?_singleton_eq_some_iff.mp live
      rw [isFork_of_node? live] at isFork
      cases isFork

/-! ## Refused edits -/

theorem insert_isOk_iff (linked : trie.Linked) (value : α) :
    (∃ child after, trie.insert v letter value = .ok (child, after)) ↔
      trie.IsEntry v ∧ trie.Vacant v letter := by
  constructor
  · rintro ⟨child, after, success⟩
    obtain ⟨entry, filed⟩ := insert_cases success
    refine ⟨entry, ?_⟩
    cases letter with
    | one key => exact (link_cases linked.tidy filed).1
    | pair action observation =>
        obtain ⟨fork, middle, forked, filed⟩ := filed
        intro fork' found
        rcases forkAt_cases forked with ⟨rfl, found', isFork⟩ | ⟨vacant, _⟩
        · obtain rfl : fork' = fork := Option.some.inj (found.symm.trans found')
          exact ⟨isFork, (link_cases linked.tidy filed).1⟩
        · rw [vacant] at found
          cases found
  · rintro ⟨entry, vacant⟩
    obtain ⟨child, after, success, _⟩ := insert_eq_ok linked entry vacant value
    exact ⟨child, after, success⟩

theorem placed_of_insert {value : α} (linked : trie.Linked)
    (success : trie.insert v letter value = .ok (child, after)) :
    trie.IsEntry v ∧ trie.Placed v (.entry none value) child after letter := by
  obtain ⟨entry, vacant⟩ := (insert_isOk_iff linked value).mp ⟨child, after, success⟩
  obtain ⟨_, _, same, placed⟩ := insert_eq_placed linked entry vacant value
  cases success.symm.trans same
  exact ⟨entry, placed⟩

theorem Cut.child?_eq_none {key : Nat} (cut : before.Cut v after) (linked : before.Linked)
    (found : before.child? u key = some v) : after.child? u key = none := by
  cases found' : after.child? u key with
  | none => rfl
  | some child =>
      obtain ⟨_, earlier, other⟩ := (cut.child?_eq_some_iff linked).mp found'
      exact absurd (Option.some.inj (earlier.symm.trans found)) other

theorem Cut.isEntry (cut : before.Cut v after) (stays : ¬ before.Climbs u v)
    (entry : before.IsEntry u) : after.IsEntry u := by
  unfold IsEntry
  rw [cut.held?_eq stays]
  exact entry

theorem Linked.above?_of_step? (linked : trie.Linked) (step : trie.step? v letter = some child) :
    ∃ above, trie.above? child = some above := by
  cases letter with
  | one key => exact ⟨v, linked.above?_of_child? step⟩
  | pair action observation =>
      obtain ⟨fork, _, step⟩ := Option.bind_eq_some_iff.mp step
      split at step
      · exact ⟨fork, linked.above?_of_child? step⟩
      · cases step

/-- Erasing what a letter leads to makes room under that letter. -/
theorem Erased.vacant {old : Nat} (erased : before.Erased old after) (linked : before.Linked)
    (entry : before.IsEntry v) (step : before.step? v letter = some old) :
    after.IsEntry v ∧ after.Vacant v letter := by
  cases letter with
  | one key =>
      have hangs := linked.above?_of_child? step
      have stays := linked.not_climbs_above hangs
      cases erased with
      | one cut _ => exact ⟨cut.isEntry stays entry, cut.child?_eq_none linked step⟩
      | both _ hangs' isFork _ _ =>
          obtain rfl := Option.some.inj (hangs'.symm.trans hangs)
          rw [isFork_of_isEntry entry] at isFork
          cases isFork
  | pair action observation =>
      obtain ⟨fork, found, step⟩ := Option.bind_eq_some_iff.mp step
      split at step
      · rename_i isFork
        have hangs := linked.above?_of_child? found
        have hangs' := linked.above?_of_child? step
        have stays : ¬ before.Climbs v old := fun climbs =>
          linked.not_climbs_above hangs (climbs.tail hangs')
        cases erased with
        | one cut _ =>
            refine ⟨cut.isEntry stays entry, fun fork' found' => ?_⟩
            obtain ⟨_, earlier, _⟩ := (cut.child?_eq_some_iff linked).mp found'
            obtain rfl := Option.some.inj (earlier.symm.trans found)
            refine ⟨?_, cut.child?_eq_none linked step⟩
            rw [cut.isFork_eq (linked.not_climbs_above hangs'), isFork]
        | @both fork' middle cut above _ _ cutFork =>
            obtain rfl : fork = fork' := Option.some.inj (hangs'.symm.trans above)
            have middleLinked := cut.linked linked (linked.ne_root_of_above? hangs')
            have other : fork ≠ old := by
              rintro rfl
              exact linked.not_climbs_above hangs' .refl
            have found' := (cut.child?_eq_some_iff linked).mpr ⟨stays, found, other⟩
            have stays' := middleLinked.not_climbs_above (middleLinked.above?_of_child? found')
            refine ⟨cutFork.isEntry stays' (cut.isEntry stays entry), fun fork' remains => ?_⟩
            rw [cutFork.child?_eq_none middleLinked found'] at remains
            cases remains
      · cases step

/-- What can be found can be replaced, so nothing is erased in vain. -/
theorem replace_isOk_of_successor {old : Nat} (proper : trie.Proper) (value : α)
    (found : trie.successor v letter = .ok old) :
    ∃ child after, trie.replace v letter value = .ok (child, after) := by
  obtain ⟨entry, step⟩ := successor_cases found
  obtain ⟨above, hangs⟩ := proper.linked.above?_of_step? step
  obtain ⟨node, live⟩ := live_of_above? hangs
  have inner := proper.linked.ne_root_of_above? hangs
  obtain ⟨count, remaining, success, erased⟩ := erase_eq_ok proper.linked inner live
  obtain ⟨child, after, filed⟩ := (insert_isOk_iff (erased.proper proper inner).linked value).mpr
    (erased.vacant proper.linked entry step)
  refine ⟨child, after, ?_⟩
  unfold replace
  rw [found]
  exact (bind_of_eq_ok success _).trans filed

/-- What is filed can be numbered, so nothing is filed in vain. -/
theorem assign_of_insert {value : α} (linked : trie.Linked)
    (success : trie.insert v letter value = .ok (child, before)) (index : Nat) :
    ∃ after, before.assign child index = .ok after := by
  obtain ⟨_, placed⟩ := placed_of_insert linked success
  obtain ⟨after, assigned, _⟩ := assign_eq_ok placed.held_child index
  exact ⟨after, assigned⟩

/-! ## Well-formed trees -/

def Edge (trie : Trie α) (v u : Nat) : Prop := ∃ key, (key, u) ∈ trie.children v

/-- A tree of two levels, seen as a graph. -/
structure WellFormed (trie : Trie α) : Prop where
  root : trie.IsEntry root
  incoming_root : ∀ v, ¬ trie.Edge v Trie.root
  incoming : ∀ u node, trie.node? u = some node → u ≠ Trie.root →
    ∃! place : Nat × Nat, (place.2, u) ∈ trie.children place.1
  live : ∀ v u, trie.Edge v u → ∃ node, trie.node? u = some node
  reachable : ∀ u node, trie.node? u = some node → Relation.ReflTransGen trie.Edge Trie.root u
  acyclic : ∀ v, ¬ Relation.TransGen trie.Edge v v
  distinct : ∀ v, (trie.children v).Pairwise fun one other => one.1 ≠ other.1
  fork_above : ∀ fork, trie.isFork fork = true → ∃ v, trie.Edge v fork ∧ trie.IsEntry v
  fork_bears : ∀ fork, trie.isFork fork = true → ∃ u, trie.Edge fork u
  fork_below : ∀ fork u, trie.isFork fork = true → trie.Edge fork u → trie.IsEntry u
  attached : ∀ v fork, trie.predecessor v ≠ .error (.missing (.vertex (.detachedFork fork)))

namespace Linked

variable (linked : trie.Linked)
include linked

theorem isEntry_root : trie.IsEntry Trie.root := by
  obtain ⟨node, live, entry, _⟩ := linked.root
  exact isEntry_of_node? live entry

theorem edge_iff : trie.Edge v u ↔ trie.above? u = some v := linked.above?_eq_some_iff.symm

theorem reflTransGen_edge_iff : Relation.ReflTransGen trie.Edge v u ↔ trie.Climbs u v := by
  rw [← Relation.reflTransGen_swap, Climbs]
  have same : Function.swap trie.Edge = fun v above => trie.above? v = some above := by
    funext v above
    exact propext linked.edge_iff
  rw [same]

theorem acyclic : ¬ Relation.TransGen trie.Edge v v := by
  intro cycle
  obtain ⟨u, edge, back⟩ := Relation.TransGen.head'_iff.mp cycle
  exact linked.not_climbs_above (linked.edge_iff.mp edge) (linked.reflTransGen_edge_iff.mp back)

theorem incoming {node : Node α} (live : trie.node? u = some node) (inner : u ≠ Trie.root) :
    ∃! place : Nat × Nat, (place.2, u) ∈ trie.children place.1 := by
  obtain ⟨v, hangs⟩ := linked.exists_above live inner
  obtain ⟨key, member⟩ := linked.above?_eq_some_iff.mp hangs
  refine ⟨(v, key), member, fun place member' => ?_⟩
  obtain ⟨same, same'⟩ := linked.child?_injective (linked.child?_eq_some_iff.mpr member')
    (linked.child?_eq_some_iff.mpr member)
  exact Prod.ext same same'

theorem distinct_keys (v : Nat) :
    (trie.children v).Pairwise fun one other => one.1 ≠ other.1 := by
  cases live : trie.node? v with
  | none => simp [children, live]
  | some node =>
      rw [children_of_node? live]
      exact (linked.distinct v node live).imp And.left

theorem above_fork (isFork : trie.isFork v = true) :
    ∃ above, trie.above? v = some above ∧ trie.IsEntry above := by
  cases live : trie.node? v with
  | none => simp [Trie.isFork, live] at isFork
  | some node =>
      have fork := isFork
      rw [isFork_of_node? live] at fork
      cases pointed : node.parent with
      | none =>
          obtain rfl := linked.orphan v node live pointed
          obtain ⟨top, live', entry, _⟩ := linked.root
          rw [live] at live'
          cases live'
          rw [entry] at fork
          cases fork
      | some above =>
          have hangs : trie.above? v = some above := by rw [above?_of_node? live, pointed]
          obtain ⟨node', live'⟩ := linked.live_above hangs
          have entry := linked.not_isFork_above isFork hangs
          rw [isFork_of_node? live'] at entry
          exact ⟨above, hangs, isEntry_of_node? live' entry⟩

theorem below_fork (isFork : trie.isFork v = true) (edge : trie.Edge v u) : trie.IsEntry u := by
  obtain ⟨key, member⟩ := edge
  obtain ⟨node, live⟩ := live_of_mem_children member
  rw [children_of_node? live] at member
  rw [isFork_of_node? live] at isFork
  obtain ⟨below, found, _, entries⟩ := linked.child v node live (key, u) member
  exact isEntry_of_node? found (entries isFork)

/-- The entry before an entry is found behind any fork. -/
theorem attached (v fork : Nat) :
    trie.predecessor v ≠ .error (.missing (.vertex (.detachedFork fork))) := by
  intro detached
  unfold predecessor Trie.node at detached
  cases live : trie.node? v with
  | none =>
      rw [live] at detached
      cases detached
  | some node =>
      simp only [live, bind, Except.bind] at detached
      cases entry : node.vertex.isFork with
      | true =>
          simp only [entry, ↓reduceIte] at detached
          cases detached
      | false =>
          cases pointed : node.parent with
          | none =>
              simp only [entry, pointed] at detached
              cases detached
          | some parent =>
              cases isFork : trie.isFork parent with
              | false =>
                  simp only [entry, pointed, isFork] at detached
                  cases detached
              | true =>
                  obtain ⟨above, hangs, _⟩ := linked.above_fork isFork
                  unfold above? at hangs
                  simp only [entry, pointed, isFork, hangs] at detached
                  cases detached

end Linked

theorem Proper.exists_edge (proper : trie.Proper) (isFork : trie.isFork v = true) :
    ∃ u, trie.Edge v u := by
  obtain ⟨place, places, listed⟩ := List.exists_cons_of_ne_nil (proper.bears v isFork)
  exact ⟨place.2, place.1, by rw [listed]; exact List.mem_cons_self⟩

theorem Proper.wellFormed (proper : trie.Proper) : trie.WellFormed := by
  have linked := proper.linked
  constructor
  case root => exact linked.isEntry_root
  case incoming_root =>
    intro v edge
    exact linked.ne_root_of_above? (linked.edge_iff.mp edge) rfl
  case incoming => exact fun u node live inner => linked.incoming live inner
  case live => exact fun v u edge => live_of_above? (linked.edge_iff.mp edge)
  case reachable =>
    intro u node live
    exact linked.reflTransGen_edge_iff.mpr (linked.climbs_to_root ⟨node, live⟩)
  case acyclic => exact fun v => linked.acyclic
  case distinct => exact linked.distinct_keys
  case fork_above =>
    intro fork isFork
    obtain ⟨above, hangs, entry⟩ := linked.above_fork isFork
    exact ⟨above, linked.edge_iff.mpr hangs, entry⟩
  case fork_bears => exact fun fork isFork => proper.exists_edge isFork
  case fork_below => exact fun fork u isFork edge => linked.below_fork isFork edge
  case attached => exact linked.attached

/-! ## Sequences of edits -/

/-- One edit of a tree, at any vertex. -/
inductive Edit (α : Type) where
  | assign (v index : Nat)
  | insert (v : Nat) (letter : Letter) (value : α)
  | replace (v : Nat) (letter : Letter) (value : α)
  | getOrInsert (v : Nat) (letter : Letter) (make : α → Except Fault (α × Nat))
  | erase (v : Nat)

namespace Edit

def run (trie : Trie α) : Edit α → Except Fault (Trie α)
  | .assign v index => trie.assign v index
  | .insert v letter value => return (← trie.insert v letter value).2
  | .replace v letter value => return (← trie.replace v letter value).2
  | .getOrInsert v letter make => return (← trie.getOrInsert v letter make).2
  | .erase v => return (← trie.erase v).2

/-- The tree after an edit. An edit that is refused leaves the tree as it is. -/
def apply (trie : Trie α) (edit : Edit α) : Trie α :=
  match edit.run trie with
  | .ok after => after
  | .error _ => trie

theorem run_proper (edit : Edit α) (proper : trie.Proper) (success : edit.run trie = .ok after) :
    after.Proper := by
  cases edit with
  | assign v index => exact assign_proper proper success
  | insert v letter value =>
      obtain ⟨outcome, inserted, success⟩ := bind_eq_ok_iff.mp success
      cases success
      exact insert_proper proper inserted
  | replace v letter value =>
      obtain ⟨outcome, replaced, success⟩ := bind_eq_ok_iff.mp success
      cases success
      exact replace_proper proper replaced
  | getOrInsert v letter make =>
      obtain ⟨outcome, found, success⟩ := bind_eq_ok_iff.mp success
      cases success
      exact getOrInsert_proper proper found
  | erase v =>
      obtain ⟨outcome, erased, success⟩ := bind_eq_ok_iff.mp success
      cases success
      exact erase_proper proper erased

theorem apply_proper (edit : Edit α) (proper : trie.Proper) : (apply trie edit).Proper := by
  unfold apply
  cases outcome : edit.run trie with
  | ok after => exact edit.run_proper proper outcome
  | error fault => exact proper

theorem foldl_apply_proper (edits : List (Edit α)) (proper : trie.Proper) :
    (edits.foldl apply trie).Proper := by
  induction edits generalizing trie with
  | nil => exact proper
  | cons edit edits ih => exact ih (edit.apply_proper proper)

/-- However a new tree is edited, it is well-formed. -/
theorem foldl_apply_wellFormed (value : α) (edits : List (Edit α)) :
    (edits.foldl apply (singleton value)).WellFormed :=
  (foldl_apply_proper edits (proper_singleton value)).wellFormed

end Edit

end TeamPlanning.Trie
