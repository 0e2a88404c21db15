import TeamPlanning.Proofs.Trie.Links

/-! # Filing an entry

Inserting a value at a free place succeeds, gives it a vertex that was not in use, and changes what
exactly one letter leads to. A pair goes through the fork of its action, which is made on the way if
there is none. Assigning an index changes no link at all. -/

set_option autoImplicit false

namespace TeamPlanning

def Letter.isPair : Letter → Bool
  | .one _ => false
  | .pair _ _ => true

namespace Trie

variable {α : Type} {trie before after : Trie α} {v u child : Nat} {letter : Letter}

def IsEntry (trie : Trie α) (v : Nat) : Prop :=
  ∃ index value, trie.held? v = some (.entry index value)

/-- Nothing but forks hangs from entries, as in a tree of pairs. -/
def Forked (trie : Trie α) : Prop :=
  ∀ v key child, trie.IsEntry v → trie.child? v key = some child → trie.isFork child = true

/-- A value can be filed under the letter. -/
def Vacant (trie : Trie α) (v : Nat) : Letter → Prop
  | .one key => trie.child? v key = none
  | .pair action observation =>
      ∀ fork, trie.child? v action = some fork →
        trie.isFork fork = true ∧ trie.child? fork observation = none

theorem isFork_of_isEntry (entry : trie.IsEntry v) : trie.isFork v = false := by
  obtain ⟨index, value, held⟩ := entry
  rw [isFork_eq, held]
  rfl

theorem step?_of_dead (dead : trie.node? v = none) (letter : Letter) :
    trie.step? v letter = none := by
  cases letter <;> simp [step?, child?_of_dead dead]

/-- A letter that leads nowhere names a free place, unless an entry hangs where a fork should. -/
theorem vacant_of_step? (entry : trie.IsEntry v) (forked : letter.isPair = true → trie.Forked)
    (nowhere : trie.step? v letter = none) : trie.Vacant v letter := by
  cases letter with
  | one key => exact nowhere
  | pair action observation =>
      intro fork found
      have isFork := forked rfl v action fork entry found
      refine ⟨isFork, ?_⟩
      simpa [step?, found, isFork] using nowhere

/-! ## Hanging an entry or a fork -/

namespace Hung

variable {key : Nat} {vertex : Vertex α} (hung : before.Hung v key vertex child after)
include hung

theorem kept (u : Nat) (held : Vertex α) (holds : before.held? u = some held) :
    after.held? u = some held := by
  obtain ⟨node, live, _⟩ := node?_of_held? holds
  rw [hung.held?_eq, if_neg (hung.ne_child live), holds]

theorem child?_place : after.child? v key = some child := by
  rw [hung.child?_eq, if_pos ⟨rfl, rfl⟩]

/-- The new vertex has nothing below it. -/
theorem child?_child (key' : Nat) : after.child? child key' = none := by
  rw [hung.child?_eq, if_neg (fun both => hung.child_ne both.1), child?_of_dead hung.fresh]

variable (linked : before.Linked)
include linked

/-- Anything may hang from an entry. -/
theorem linked_of_entry (entry : before.IsEntry v) (vacant : before.child? v key = none) :
    after.Linked := by
  refine hung.linked linked vacant fun isFork => ?_
  rw [isFork_of_isEntry entry] at isFork
  cases isFork

/-- What hangs from an entry is reached by a single letter and by no other. -/
theorem step?_eq_of_entry (entry : before.IsEntry v) (vacant : before.child? v key = none)
    (u : Nat) (other : Letter) : after.step? u other =
      if u = v ∧ other = .one key then some child else before.step? u other := by
  cases other with
  | one key' => simp only [step?, hung.child?_eq, Letter.one.injEq]
  | pair action observation =>
      simp only [step?, hung.child?_eq u action, reduceCtorEq, and_false, ↓reduceIte]
      by_cases here : u = v ∧ action = key
      · obtain ⟨rfl, rfl⟩ := here
        simp [vacant, hung.child?_child]
      · rw [if_neg here]
        cases found : before.child? u action with
        | none => rfl
        | some fork =>
            obtain ⟨_, live, _⟩ := linked.live_of_child? found
            simp only [Option.bind_some, hung.isFork_eq, if_neg (hung.ne_child live)]
            by_cases isFork : before.isFork fork = true
            · have apart : fork ≠ v := by
                rintro rfl
                rw [isFork_of_isEntry entry] at isFork
                cases isFork
              rw [(hung.child?_eq fork observation).trans (if_neg fun both => apart both.1)]
            · simp [isFork]

end Hung

/-- What hangs from a fork is reached by one pair only, from the entry above the fork. -/
theorem Hung.step?_eq_of_fork {action observation fork : Nat} {vertex : Vertex α}
    (hung : before.Hung fork observation vertex child after) (linked : before.Linked)
    (found : before.child? v action = some fork) (isFork : before.isFork fork = true)
    (apart : u ≠ fork) (other : Letter) : after.step? u other =
      if u = v ∧ other = .pair action observation then some child else before.step? u other := by
  have single : ∀ key, after.child? u key = before.child? u key := fun key =>
    (hung.child?_eq u key).trans (if_neg fun both => apart both.1)
  cases other with
  | one key => simp only [step?, single, reduceCtorEq, and_false, ↓reduceIte]
  | pair action' observation' =>
      simp only [step?, single, Letter.pair.injEq]
      cases found' : before.child? u action' with
      | none =>
          have elsewhere : ¬ (u = v ∧ action' = action ∧ observation' = observation) := by
            rintro ⟨rfl, rfl, _⟩
            rw [found] at found'
            cases found'
          rw [if_neg elsewhere]
          rfl
      | some fork' =>
          obtain ⟨_, live, _⟩ := linked.live_of_child? found'
          -- Only one place leads to the fork.
          have sameFork : fork' = fork ↔ u = v ∧ action' = action := by
            constructor
            · rintro rfl
              exact linked.child?_injective found' found
            · rintro ⟨rfl, rfl⟩
              exact Option.some.inj (found'.symm.trans found)
          simp only [Option.bind_some, hung.isFork_eq, if_neg (hung.ne_child live),
            hung.child?_eq fork', sameFork, and_assoc]
          by_cases here : u = v ∧ action' = action ∧ observation' = observation
          · rw [if_pos here, if_pos here, sameFork.mpr ⟨here.1, here.2.1⟩, if_pos isFork]
          · rw [if_neg here, if_neg here]

/-! ## Three ways to file -/

/-- A fork for the action is missing from the way of the letter. -/
def Opens (trie : Trie α) (v : Nat) (letter : Letter) (action : Nat) : Prop :=
  trie.child? v action = none ∧ ∃ observation, letter = .pair action observation

theorem opens_one {key action : Nat} : ¬ trie.Opens v (.one key) action := by
  rintro ⟨_, _, same⟩
  cases same

theorem opens_pair_iff {action action' observation : Nat} :
    trie.Opens v (.pair action observation) action' ↔
      action' = action ∧ trie.child? v action = none := by
  constructor
  · rintro ⟨vacant, _, same⟩
    cases same
    exact ⟨rfl, vacant⟩
  · rintro ⟨rfl, vacant⟩
    exact ⟨vacant, observation, rfl⟩

/-- A vertex hangs under the letter: from the entry itself, from a fork, or from a fork made for it. -/
inductive Placed (before : Trie α) (v : Nat) (vertex : Vertex α) (child : Nat) (after : Trie α) :
    Letter → Prop where
  | single {key : Nat} (vacant : before.child? v key = none)
      (hung : before.Hung v key vertex child after) : Placed before v vertex child after (.one key)
  | shared {action observation fork : Nat} (found : before.child? v action = some fork)
      (isFork : before.isFork fork = true) (vacant : before.child? fork observation = none)
      (hung : before.Hung fork observation vertex child after) :
      Placed before v vertex child after (.pair action observation)
  | opened {action observation fork : Nat} {middle : Trie α}
      (vacant : before.child? v action = none) (made : before.Hung v action .fork fork middle)
      (hung : middle.Hung fork observation vertex child after) :
      Placed before v vertex child after (.pair action observation)

/-- There is a way to file wherever there is room. -/
theorem insert_eq_placed (linked : trie.Linked) (entry : trie.IsEntry v)
    (vacant : trie.Vacant v letter) (value : α) :
    ∃ child after, trie.insert v letter value = .ok (child, after) ∧
      trie.Placed v (.entry none value) child after letter := by
  obtain ⟨index, held, holds⟩ := entry
  obtain ⟨node, live, _⟩ := node?_of_held? holds
  unfold Trie.insert
  rw [bind_of_eq_ok (vertex_of_held? holds)]
  simp only [Vertex.isFork, Bool.false_eq_true, ↓reduceIte]
  cases letter with
  | one key =>
      obtain ⟨child, after, success, hung⟩ :=
        link_eq_ok linked.tidy live vacant (.entry none value)
      exact ⟨child, after, success, .single vacant hung⟩
  | pair action observation =>
      cases found : trie.child? v action with
      | some fork =>
          obtain ⟨isFork, free⟩ := vacant fork found
          obtain ⟨forkNode, forkLive, _⟩ := linked.live_of_child? found
          obtain ⟨child, after, success, hung⟩ :=
            link_eq_ok linked.tidy forkLive free (.entry none value)
          have reached : trie.forkAt v action = .ok (fork, trie) := by
            rw [forkAt, found]
            simp [isFork]
          exact ⟨child, after, (bind_of_eq_ok reached _).trans success,
            .shared found isFork free hung⟩
      | none =>
          obtain ⟨fork, middle, made, hung⟩ := link_eq_ok linked.tidy live found .fork
          obtain ⟨child, after, success, hung'⟩ := link_eq_ok hung.tidy hung.node?_child
            (hung.child?_child observation) (.entry none value)
          have reached : trie.forkAt v action = .ok (fork, middle) := by
            rw [forkAt, found]
            exact made
          exact ⟨child, after, (bind_of_eq_ok reached _).trans success, .opened found hung hung'⟩

namespace Placed

variable {index : Option Nat} {value : α}
variable (placed : before.Placed v (.entry index value) child after letter)
include placed

theorem held_child : after.held? child = some (.entry index value) := by
  cases placed with
  | single _ hung => rw [hung.held?_eq, if_pos rfl]
  | shared _ _ _ hung => rw [hung.held?_eq, if_pos rfl]
  | opened _ _ hung => rw [hung.held?_eq, if_pos rfl]

theorem child?_child (key : Nat) : after.child? child key = none := by
  cases placed with
  | single _ hung => exact hung.child?_child key
  | shared _ _ _ hung => exact hung.child?_child key
  | opened _ _ hung => exact hung.child?_child key

theorem kept (u : Nat) (held : Vertex α) (holds : before.held? u = some held) :
    after.held? u = some held := by
  cases placed with
  | single _ hung => exact hung.kept u held holds
  | shared _ _ _ hung => exact hung.kept u held holds
  | opened _ made hung => exact hung.kept u held (made.kept u held holds)

theorem fresh : before.node? child = none := by
  cases placed with
  | single _ hung => exact hung.fresh
  | shared _ _ _ hung => exact hung.fresh
  | opened _ made hung =>
      cases dead : before.node? child with
      | none => rfl
      | some node =>
          obtain ⟨_, live, _⟩ :=
            node?_of_held? (made.kept child node.vertex (held?_of_node? dead))
          rw [hung.fresh] at live
          cases live

/-- Only the new entry was not one before. -/
theorem isEntry_before (entry : after.IsEntry u) (other : u ≠ child) : before.IsEntry u := by
  obtain ⟨index', value', held⟩ := entry
  cases placed with
  | single _ hung =>
      rw [hung.held?_eq, if_neg other] at held
      exact ⟨index', value', held⟩
  | shared _ _ _ hung =>
      rw [hung.held?_eq, if_neg other] at held
      exact ⟨index', value', held⟩
  | opened _ made hung =>
      rw [hung.held?_eq, if_neg other, made.held?_eq] at held
      split at held
      · cases held
      · exact ⟨index', value', held⟩

/-- The action of a new fork leads to it. -/
theorem exists_fork {action : Nat} (opens : before.Opens v letter action) :
    ∃ fork, before.node? fork = none ∧ after.child? v action = some fork ∧
      after.held? fork = some .fork ∧ ∃ observation, after.children fork = [(observation, child)] := by
  cases placed with
  | single _ _ => exact absurd opens opens_one
  | shared found _ _ _ =>
      rw [(opens_pair_iff.mp opens).2] at found
      cases found
  | @opened action' observation fork middle vacant made hung =>
      obtain ⟨rfl, _⟩ := opens_pair_iff.mp opens
      refine ⟨fork, made.fresh, ?_, ?_, observation, ?_⟩
      · rw [hung.child?_eq, if_neg (fun both => made.child_ne both.1.symm), made.child?_place]
      · rw [hung.held?_eq, if_neg hung.child_ne.symm, made.held?_eq, if_pos rfl]
      · rw [hung.children_place, children, made.node?_child]
        rfl

variable (linked : before.Linked) (entry : before.IsEntry v)
include linked entry

theorem linked_after : after.Linked := by
  cases placed with
  | single vacant hung => exact hung.linked_of_entry linked entry vacant
  | shared _ _ vacant hung => exact hung.linked linked vacant fun _ => rfl
  | opened vacant made hung =>
      have middleLinked := made.linked_of_entry linked entry vacant
      exact hung.linked middleLinked (made.child?_child _) fun _ => rfl

/-- Apart from the action of a new fork, no letter but the one that was filed under leads elsewhere. -/
theorem step?_eq (entry' : before.IsEntry u) (other : Letter)
    (elsewhere : ∀ action, before.Opens v letter action → ¬ (u = v ∧ other = .one action)) :
    after.step? u other =
      if u = v ∧ other = letter then some child else before.step? u other := by
  cases placed with
  | single vacant hung => exact hung.step?_eq_of_entry linked entry vacant u other
  | @shared action observation fork found isFork vacant hung =>
      have apart : u ≠ fork := by
        rintro rfl
        rw [isFork_of_isEntry entry'] at isFork
        cases isFork
      exact hung.step?_eq_of_fork linked found isFork apart other
  | @opened action observation fork middle vacant made hung =>
      have isFork : middle.isFork fork = true := by
        rw [made.isFork_eq, if_pos rfl]
        rfl
      obtain ⟨_, _, held⟩ := entry'
      obtain ⟨_, live, _⟩ := node?_of_held? held
      rw [hung.step?_eq_of_fork (made.linked_of_entry linked entry vacant) made.child?_place isFork
          (made.ne_child live) other,
        made.step?_eq_of_entry linked entry vacant,
        if_neg (elsewhere action (opens_pair_iff.mpr ⟨rfl, vacant⟩))]

theorem forked (forked : before.Forked) (pairs : letter.isPair = true) : after.Forked := by
  intro u key below entry' found
  have other : u ≠ child := by
    rintro rfl
    rw [placed.child?_child] at found
    cases found
  have entry' := placed.isEntry_before entry' other
  by_cases opens : ∃ action, before.Opens v letter action ∧ u = v ∧ Letter.one key = .one action
  · obtain ⟨action, opens, rfl, same⟩ := opens
    cases same
    obtain ⟨fork, _, found', held, _⟩ := placed.exists_fork opens
    obtain rfl := Option.some.inj (found.symm.trans found')
    rw [isFork_eq, held]
    rfl
  · have step : after.step? u (.one key) = some below := found
    rw [placed.step?_eq linked entry entry' (.one key) (fun action made both =>
      opens ⟨action, made, both⟩), if_neg] at step
    · have isFork := forked u key below entry' step
      rw [isFork_eq, Option.any_eq_true] at isFork
      obtain ⟨vertex, held, fork⟩ := isFork
      rw [isFork_eq, placed.kept below vertex held]
      exact fork
    · rintro ⟨_, rfl⟩
      cases pairs

end Placed

/-- The tree after a value was filed under a letter that led nowhere. -/
structure Inserted (before : Trie α) (v : Nat) (letter : Letter) (value : α) (child : Nat)
    (after : Trie α) : Prop where
  linked : after.Linked
  fresh : before.node? child = none
  held : after.held? child = some (.entry none value)
  kept : ∀ u vertex, before.held? u = some vertex → after.held? u = some vertex
  step : ∀ u other, before.IsEntry u ∨ u = child → other.isPair = letter.isPair →
    after.step? u other = if u = v ∧ other = letter then some child else before.step? u other
  forked : letter.isPair = true → before.Forked → after.Forked

theorem Placed.inserted {value : α} (placed : before.Placed v (.entry none value) child after letter)
    (linked : before.Linked) (entry : before.IsEntry v) :
    before.Inserted v letter value child after where
  linked := placed.linked_after linked entry
  fresh := placed.fresh
  held := placed.held_child
  kept := placed.kept
  step := by
    intro u other held shape
    rcases held with entry' | rfl
    · refine placed.step?_eq linked entry entry' other ?_
      rintro action ⟨_, _, rfl⟩ ⟨_, rfl⟩
      cases shape
    · have apart : u ≠ v := by
        rintro rfl
        obtain ⟨_, _, held⟩ := entry
        rw [held?, placed.fresh] at held
        cases held
      rw [if_neg (fun both => apart both.1), step?_of_dead placed.fresh]
      cases other <;> simp [step?, placed.child?_child]
  forked := fun pairs forked => placed.forked linked entry forked pairs

/-- A value can be filed wherever there is room for it. -/
theorem insert_eq_ok (linked : trie.Linked) (entry : trie.IsEntry v)
    (vacant : trie.Vacant v letter) (value : α) :
    ∃ child after, trie.insert v letter value = .ok (child, after) ∧
      trie.Inserted v letter value child after := by
  obtain ⟨child, after, success, placed⟩ := insert_eq_placed linked entry vacant value
  exact ⟨child, after, success, placed.inserted linked entry⟩

/-! ## Finding or filing -/

theorem getOrInsert_of_successor {make : α → Except Fault (α × Nat)}
    (found : trie.successor v letter = .ok child) :
    trie.getOrInsert v letter make = .ok (child, trie) := by
  rw [getOrInsert, found]

theorem getOrInsert_of_refused {make : α → Except Fault (α × Nat)} {fault refusal : Fault}
    {held : α}
    (missing : trie.successor v letter = .error fault) (value : trie.value v = .ok held)
    (refused : make held = .error refusal) : trie.getOrInsert v letter make = .error refusal := by
  rw [getOrInsert, missing]
  exact (bind_of_eq_ok value _).trans (bind_of_eq_error refused _)

theorem getOrInsert_of_made {make : α → Except Fault (α × Nat)} {fault : Fault} {held made : α}
    {index : Nat} {filed : Trie α} (missing : trie.successor v letter = .error fault)
    (value : trie.value v = .ok held) (success : make held = .ok (made, index))
    (inserted : trie.insert v letter made = .ok (child, filed))
    (assigned : filed.assign child index = .ok after) :
    trie.getOrInsert v letter make = .ok (child, after) := by
  rw [getOrInsert, missing]
  refine (bind_of_eq_ok value _).trans ((bind_of_eq_ok success _).trans ?_)
  exact (bind_of_eq_ok inserted _).trans (bind_of_eq_ok assigned _)

/-! ## Assigning an index -/

/-- The tree after an index was assigned to an entry. -/
structure Assigned (before : Trie α) (v index : Nat) (value : α) (after : Trie α) : Prop where
  linked : before.Linked → after.Linked
  held : ∀ u, after.held? u = if u = v then some (.entry (some index) value) else before.held? u
  step : ∀ u letter, after.step? u letter = before.step? u letter
  forked : before.Forked → after.Forked

/-- Only the links matter for being linked. -/
private theorem Linked.of_same_links (linked : before.Linked) (tidy : after.Tidy)
    (same : ∀ u,
      (after.node? u).map (fun node => (node.vertex.isFork, node.parent, node.children)) =
        (before.node? u).map (fun node => (node.vertex.isFork, node.parent, node.children))) :
    after.Linked := by
  have back : ∀ u node, after.node? u = some node → ∃ old, before.node? u = some old ∧
      old.vertex.isFork = node.vertex.isFork ∧ old.parent = node.parent ∧
        old.children = node.children := by
    intro u node live
    have equal := same u
    rw [live, Option.map_some, eq_comm, Option.map_eq_some_iff] at equal
    obtain ⟨old, earlier, links⟩ := equal
    simp only [Prod.mk.injEq] at links
    exact ⟨old, earlier, links⟩
  have forth : ∀ u old, before.node? u = some old → ∃ node, after.node? u = some node ∧
      node.vertex.isFork = old.vertex.isFork ∧ node.parent = old.parent ∧
        node.children = old.children := by
    intro u old live
    have equal := same u
    rw [live, Option.map_some, Option.map_eq_some_iff] at equal
    obtain ⟨node, later, links⟩ := equal
    simp only [Prod.mk.injEq] at links
    exact ⟨node, later, links⟩
  have childs : ∀ u key, after.child? u key = before.child? u key := by
    intro u key
    have equal := congrArg (Option.map fun links => links.2.2) (same u)
    simp only [Option.map_map, Function.comp_def] at equal
    rw [child?, child?, children, children, equal]
  refine ⟨tidy, ?_, ?_, ?_, ?_, ?_, ?_⟩
  · obtain ⟨top, live, entry, orphan⟩ := linked.root
    obtain ⟨top', live', isFork, parent, _⟩ := forth _ top live
    exact ⟨top', live', by rw [isFork, entry], by rw [parent, orphan]⟩
  · intro u node live orphan
    obtain ⟨old, earlier, _, parent, _⟩ := back u node live
    exact linked.orphan u old earlier (by rw [parent, orphan])
  · intro u node above live pointed
    obtain ⟨old, earlier, _, parent, _⟩ := back u node live
    obtain ⟨key, found⟩ := linked.parent u old above earlier (by rw [parent, pointed])
    exact ⟨key, by rw [childs, found]⟩
  · intro u node live place member
    obtain ⟨old, earlier, isFork, _, places⟩ := back u node live
    obtain ⟨below, found, pointed, entries⟩ := linked.child u old earlier place (places ▸ member)
    obtain ⟨below', found', isFork', parent', _⟩ := forth _ below found
    refine ⟨below', found', by rw [parent', pointed], ?_⟩
    rw [isFork', ← isFork]
    exact entries
  · intro u node live
    obtain ⟨old, earlier, _, _, places⟩ := back u node live
    rw [← places]
    exact linked.distinct u old earlier
  · obtain ⟨depth, deeper⟩ := linked.depth
    refine ⟨depth, fun u node above live pointed => ?_⟩
    obtain ⟨old, earlier, _, parent, _⟩ := back u node live
    exact deeper u old above earlier (by rw [parent, pointed])

theorem assign_eq_ok {value : α} (holds : trie.held? v = some (.entry none value)) (index : Nat) :
    ∃ after, trie.assign v index = .ok after ∧ trie.Assigned v index value after := by
  obtain ⟨node, live, unnumbered⟩ := node?_of_held? holds
  have inside := lt_size_of_node? live
  have nodes : ∀ u, (trie.put v (some { node with vertex := .entry (some index) value })).node? u =
      if u = v then some { node with vertex := .entry (some index) value } else trie.node? u :=
    node?_put inside _
  have held : ∀ u, (trie.put v (some { node with vertex := .entry (some index) value })).held? u =
      if u = v then some (.entry (some index) value) else trie.held? u := by
    intro u
    rw [held?, nodes]
    split <;> rfl
  have isFork : ∀ u,
      (trie.put v (some { node with vertex := .entry (some index) value })).isFork u =
        trie.isFork u := by
    intro u
    rw [isFork_eq, isFork_eq, held]
    split
    · rename_i here
      rw [here, holds]
      rfl
    · rfl
  have childs : ∀ u key,
      (trie.put v (some { node with vertex := .entry (some index) value })).child? u key =
        trie.child? u key := by
    intro u key
    rw [child?, child?, children, children, nodes]
    split
    · rename_i here
      rw [here, live]
      rfl
    · rfl
  refine ⟨trie.put v (some { node with vertex := .entry (some index) value }), ?_, ?_, held, ?_, ?_⟩
  · rw [assign, Trie.node, live]
    simp only [bind, Except.bind, unnumbered]
    rfl
  · intro linked
    refine linked.of_same_links (linked.tidy.put live _) fun u => ?_
    rw [nodes]
    split
    · rename_i here
      rw [here, live, Option.map_some, Option.map_some, unnumbered]
      rfl
    · rfl
  · intro u letter
    cases letter <;> simp only [step?, childs, isFork]
  · intro forked u key child entry found
    rw [isFork]
    rw [childs] at found
    refine forked u key child ?_ found
    obtain ⟨index', value', holds'⟩ := entry
    rw [held] at holds'
    split at holds'
    · rename_i here
      exact ⟨none, value, here ▸ holds⟩
    · exact ⟨index', value', holds'⟩

end Trie

end TeamPlanning
