import TeamPlanning.Proofs.Trie.Queries

/-! # What filing an entry changes

Filing a value adds one vertex, and a fork if the letter is a pair whose action led nowhere. Of the
vertices that lived before, one gets one more edge; apart from the letter itself, and the action of a
new fork, every letter leads where it led. -/

set_option autoImplicit false

namespace TeamPlanning.Trie

variable {α : Type} {trie before after : Trie α} {v u w child : Nat} {letter : Letter}

/-! ## Growing -/

/-- Nothing that lives is lost, and it stays what and where it is. -/
structure Grows (before after : Trie α) : Prop where
  held : ∀ u, before.Lives u → after.held? u = before.held? u
  above : ∀ u, before.Lives u → after.above? u = before.above? u
  edge : ∀ u key w, before.child? u key = some w → after.child? u key = some w

namespace Grows

theorem lives (grows : before.Grows after) (lives : before.Lives u) : after.Lives u := by
  rw [lives_iff, grows.held u lives]
  exact lives_iff.mp lives

theorem trans {middle : Trie α} (grows : before.Grows middle) (further : middle.Grows after) :
    before.Grows after where
  held := fun u lives => (further.held u (grows.lives lives)).trans (grows.held u lives)
  above := fun u lives => (further.above u (grows.lives lives)).trans (grows.above u lives)
  edge := fun u key w found => further.edge u key w (grows.edge u key w found)

theorem isFork (grows : before.Grows after) (lives : before.Lives u) :
    after.isFork u = before.isFork u := by
  rw [isFork_eq, isFork_eq, grows.held u lives]

theorem isEntry (grows : before.Grows after) (entry : before.IsEntry u) : after.IsEntry u := by
  have lives := entry.lives
  obtain ⟨index, value, held⟩ := entry
  exact ⟨index, value, (grows.held u lives).trans held⟩

theorem keeps (grows : before.Grows after) (linked : before.Linked) (lives : before.Lives u) :
    before.Keeps after u where
  vertex := vertex_congr (grows.held u lives)
  predecessor := by
    refine predecessor_congr (grows.held u lives) (grows.above u lives) fun parent hangs => ?_
    have above := linked.live_above hangs
    exact ⟨grows.held parent above, grows.above parent above⟩

end Grows

namespace Hung

variable {key : Nat} {vertex : Vertex α} (hung : before.Hung v key vertex child after)
include hung

theorem above?_eq (u : Nat) :
    after.above? u = if u = child then some v else before.above? u := by
  obtain ⟨node, live, nodes⟩ := hung.nodes
  rw [above?, above?, nodes]
  by_cases here : u = v
  · subst here
    rw [if_pos rfl, if_neg hung.child_ne.symm, live]
    rfl
  · rw [if_neg here]
    split <;> rfl

theorem lives_iff (u : Nat) : after.Lives u ↔ before.Lives u ∨ u = child := by
  rw [Trie.lives_iff, Trie.lives_iff, hung.held?_eq]
  by_cases new : u = child <;> simp [new]

variable (vacant : before.child? v key = none)
include vacant

theorem grows : before.Grows after where
  held := fun u ⟨_, live⟩ => by rw [hung.held?_eq, if_neg (hung.ne_child live)]
  above := fun u ⟨_, live⟩ => by rw [hung.above?_eq, if_neg (hung.ne_child live)]
  edge := by
    intro u key' w found
    rw [hung.child?_eq, if_neg]
    · exact found
    · rintro ⟨rfl, rfl⟩
      rw [vacant] at found
      cases found

theorem one_edge : ∃! place : Nat × Nat,
    before.Lives place.1 ∧ after.child? place.1 place.2 ≠ before.child? place.1 place.2 := by
  obtain ⟨node, live, _⟩ := hung.nodes
  refine ⟨(v, key), ⟨⟨node, live⟩, ?_⟩, ?_⟩
  · rw [hung.child?_place, vacant]
    exact Option.some_ne_none child
  · rintro ⟨u, key'⟩ ⟨_, differs⟩
    by_contra elsewhere
    refine differs ((hung.child?_eq u key').trans (if_neg ?_))
    rintro ⟨rfl, rfl⟩
    exact elsewhere rfl

end Hung

/-! ## What was filed -/

/-- A new entry may as well have hung there with its index. -/
theorem Hung.assign {middle : Trie α} {key index : Nat} {value : α}
    (hung : before.Hung v key (.entry none value) child middle)
    (success : middle.assign child index = .ok after) :
    before.Hung v key (.entry (some index) value) child after := by
  obtain ⟨node, live, nodes⟩ := hung.nodes
  rw [Trie.assign, Trie.node, hung.node?_child] at success
  cases success
  refine ⟨hung.fresh, hung.tidy.put hung.node?_child _, node, live, fun u => ?_⟩
  rw [node?_put (lt_size_of_node? hung.node?_child), nodes]
  by_cases new : u = child
  · simp only [new, hung.child_ne, ↓reduceIte]
  · simp only [new, ↓reduceIte]

theorem Placed.assign {middle : Trie α} {index : Nat} {value : α}
    (placed : before.Placed v (.entry none value) child middle letter)
    (success : middle.assign child index = .ok after) :
    before.Placed v (.entry (some index) value) child after letter := by
  cases placed with
  | single vacant hung => exact .single vacant (hung.assign success)
  | shared found isFork vacant hung => exact .shared found isFork vacant (hung.assign success)
  | opened vacant made hung => exact .opened vacant made (hung.assign success)

/-- Filing under the letter changes where the other letter leads from `u`. -/
def Touches (trie : Trie α) (v : Nat) (letter : Letter) (u : Nat) (other : Letter) : Prop :=
  u = v ∧ (other = letter ∨ ∃ action, trie.Opens v letter action ∧ other = .one action)

/-- The tree after a value was filed under a letter, with or without an index. -/
structure Filed (before : Trie α) (v : Nat) (letter : Letter) (index : Option Nat) (value : α)
    (child : Nat) (after : Trie α) : Prop where
  fresh : ¬ before.Lives child
  vertex : after.vertex child = .ok (.entry index value)
  predecessor : after.predecessor child = .ok v
  successor : after.successor v letter = .ok child
  leaf : after.children child = []
  fork : ∀ action, before.Opens v letter action → ∃ fork, ¬ before.Lives fork ∧
    after.successor v (.one action) = .ok fork ∧ after.vertex fork = .ok .fork ∧
      after.SoleFork fork child
  lives : ∀ u, after.Lives u ↔ before.Lives u ∨ u = child ∨
    ∃ action, before.Opens v letter action ∧ after.successor v (.one action) = .ok u
  kept : ∀ u, before.Lives u → before.Keeps after u
  edges_kept : ∀ u key w, before.child? u key = some w → after.child? u key = some w
  one_edge : ∃! place : Nat × Nat,
    before.Lives place.1 ∧ after.child? place.1 place.2 ≠ before.child? place.1 place.2
  steps_kept : ∀ u other, before.Lives u → ¬ before.Touches v letter u other →
    after.successor u other = before.successor u other
  listed : ∀ u other w, before.IsEntry u → ((other, w) ∈ after.successors u ↔
    (other, w) ∈ before.successors u ∨ u = v ∧ other = letter ∧ w = child)

namespace Placed

variable {index : Option Nat} {value : α}
variable (placed : before.Placed v (.entry index value) child after letter)
include placed

theorem grows : before.Grows after := by
  cases placed with
  | single vacant hung => exact hung.grows vacant
  | shared _ _ vacant hung => exact hung.grows vacant
  | opened vacant made hung =>
      exact (made.grows vacant).trans (hung.grows (made.child?_child _))

theorem children_child : after.children child = [] := by
  cases placed with
  | single _ hung => exact children_of_node? hung.node?_child
  | shared _ _ _ hung => exact children_of_node? hung.node?_child
  | opened _ _ hung => exact children_of_node? hung.node?_child

theorem lives_iff (u : Nat) : after.Lives u ↔ before.Lives u ∨ u = child ∨
    ∃ action, before.Opens v letter action ∧ after.child? v action = some u := by
  cases placed with
  | single vacant hung => simp [hung.lives_iff, opens_one]
  | shared found _ _ hung => simp [hung.lives_iff, opens_pair_iff, found]
  | @opened action observation fork middle vacant made hung =>
      have place : after.child? v action = some fork := by
        rw [hung.child?_eq, if_neg (fun both => made.child_ne both.1.symm), made.child?_place]
      simp only [opens_pair_iff, vacant, and_true, exists_eq_left, place, Option.some.injEq]
      rw [hung.lives_iff, made.lives_iff, or_assoc, or_comm (a := u = fork), @eq_comm _ fork]

/-- The letter led nowhere before. -/
theorem step?_before : before.step? v letter = none := by
  cases placed with
  | single vacant _ => exact vacant
  | shared found isFork vacant _ => simp [step?, found, isFork, vacant]
  | opened vacant _ _ => simp [step?, vacant]

theorem one_edge : ∃! place : Nat × Nat,
    before.Lives place.1 ∧ after.child? place.1 place.2 ≠ before.child? place.1 place.2 := by
  cases placed with
  | single vacant hung => exact hung.one_edge vacant
  | shared _ _ vacant hung => exact hung.one_edge vacant
  | @opened action observation fork middle vacant made hung =>
      -- The edge from the new fork is not from a vertex that lived.
      have same : ∀ u key, before.Lives u → after.child? u key = middle.child? u key := by
        rintro u key ⟨_, live⟩
        exact (hung.child?_eq u key).trans (if_neg fun both => made.ne_child live both.1)
      refine (existsUnique_congr fun place => and_congr_right fun lives => ?_).mp
        (made.one_edge vacant)
      rw [same place.1 place.2 lives]

/-- A new fork bears what was filed and nothing else. -/
theorem exists_soleFork {action : Nat} (opens : before.Opens v letter action) :
    ∃ fork, ¬ before.Lives fork ∧ after.child? v action = some fork ∧
      after.held? fork = some .fork ∧ after.SoleFork fork child := by
  obtain ⟨fork, fresh, found, held, observation, listed⟩ := placed.exists_fork opens
  refine ⟨fork, not_lives_iff.mpr fresh, found, held, ?_, ⟨observation, by simp [listed]⟩, ?_⟩
  · rw [isFork_eq, held]
    rfl
  · rintro u ⟨key, member⟩
    simp only [listed, List.mem_singleton, Prod.mk.injEq] at member
    exact member.2

variable (linked : before.Linked) (entry : before.IsEntry v)
include linked entry

theorem step?_child : after.step? v letter = some child := by
  rw [placed.step?_eq linked entry entry, if_pos ⟨rfl, rfl⟩]
  rintro action ⟨_, _, rfl⟩ ⟨_, same⟩
  cases same

theorem predecessor_child : after.predecessor child = .ok v := by
  have isEntry : after.IsEntry child := ⟨index, value, placed.held_child⟩
  cases placed with
  | single vacant hung =>
      obtain ⟨_, live⟩ := entry.lives
      refine predecessor_of_entry isEntry ?_ ?_
      · rw [hung.above?_eq, if_pos rfl]
      · rw [hung.isFork_eq, if_neg (hung.ne_child live), isFork_of_isEntry entry]
  | @shared action observation fork found isFork vacant hung =>
      obtain ⟨_, live, _⟩ := linked.live_of_child? found
      refine predecessor_of_fork isEntry (u := fork) ?_ ?_ ?_
      · rw [hung.above?_eq, if_pos rfl]
      · rw [hung.isFork_eq, if_neg (hung.ne_child live), isFork]
      · rw [hung.above?_eq, if_neg (hung.ne_child live), linked.above?_of_child? found]
  | @opened action observation fork middle vacant made hung =>
      have apart := hung.child_ne.symm
      refine predecessor_of_fork isEntry (u := fork) ?_ ?_ ?_
      · rw [hung.above?_eq, if_pos rfl]
      · rw [hung.isFork_eq, if_neg apart, made.isFork_eq, if_pos rfl]
        rfl
      · rw [hung.above?_eq, if_neg apart, made.above?_eq, if_pos rfl]

theorem steps_kept (lives : before.Lives u) (other : Letter)
    (untouched : ¬ before.Touches v letter u other) :
    after.successor u other = before.successor u other := by
  refine successor_congr (placed.grows.held u lives) fun isFork => ?_
  rw [placed.step?_eq linked entry (isEntry_of_lives lives isFork), if_neg]
  · exact fun both => untouched ⟨both.1, .inl both.2⟩
  · exact fun action opens both => untouched ⟨both.1, .inr ⟨action, opens, both.2⟩⟩

theorem listed (entry' : before.IsEntry u) (other : Letter) :
    (other, w) ∈ after.successors u ↔
      (other, w) ∈ before.successors u ∨ u = v ∧ other = letter ∧ w = child := by
  rw [(placed.linked_after linked entry).mem_successors_iff, linked.mem_successors_iff]
  by_cases here : u = v ∧ other = letter
  · obtain ⟨rfl, rfl⟩ := here
    rw [placed.step?_child linked entry, placed.step?_before]
    have isFork : after.isFork child = false := isFork_of_isEntry ⟨_, _, placed.held_child⟩
    constructor
    · rintro ⟨same, _⟩
      exact .inr ⟨rfl, rfl, (Option.some.inj same).symm⟩
    · rintro (⟨nothing, _⟩ | ⟨_, _, rfl⟩)
      · cases nothing
      · exact ⟨rfl, fun _ => isFork⟩
  · by_cases opens : ∃ action, before.Opens v letter action ∧ u = v ∧ other = .one action
    · -- What a new fork's action leads to is a fork, and is not listed.
      obtain ⟨action, opens, rfl, rfl⟩ := opens
      obtain ⟨fork, _, found, _, sole⟩ := placed.exists_soleFork opens
      constructor
      · rintro ⟨step, single⟩
        obtain rfl : fork = w := Option.some.inj (found.symm.trans step)
        rw [sole.isFork] at single
        cases single rfl
      · rintro (⟨step, _⟩ | both)
        · cases opens.1.symm.trans step
        · exact absurd ⟨both.1, both.2.1⟩ here
    · have same : before.step? u other = some w → after.isFork w = before.isFork w := fun step =>
        placed.grows.isFork (linked.lives_of_step? step)
      rw [placed.step?_eq linked entry entry' other (fun action made both =>
        opens ⟨action, made, both⟩), if_neg here]
      constructor
      · rintro ⟨step, single⟩
        exact .inl ⟨step, fun shape => (same step).symm.trans (single shape)⟩
      · rintro (⟨step, single⟩ | both)
        · exact ⟨step, fun shape => (same step).trans (single shape)⟩
        · exact absurd ⟨both.1, both.2.1⟩ here

theorem filed : before.Filed v letter index value child after where
  fresh := not_lives_iff.mpr placed.fresh
  vertex := vertex_of_held? placed.held_child
  predecessor := placed.predecessor_child linked entry
  successor := (placed.grows.isEntry entry).successor_eq_ok_iff.mpr
    (placed.step?_child linked entry)
  leaf := placed.children_child
  fork := by
    intro action opens
    obtain ⟨fork, fresh, found, held, sole⟩ := placed.exists_soleFork opens
    have reached : after.successor v (.one action) = .ok fork :=
      (placed.grows.isEntry entry).successor_eq_ok_iff.mpr found
    exact ⟨fork, fresh, reached, vertex_of_held? held, sole⟩
  lives := by
    intro u
    simp only [(placed.grows.isEntry entry).successor_eq_ok_iff, step?]
    exact placed.lives_iff u
  kept := fun u lives => placed.grows.keeps linked lives
  edges_kept := placed.grows.edge
  one_edge := placed.one_edge
  steps_kept := fun u other lives => placed.steps_kept linked entry lives other
  listed := fun u other w entry' => placed.listed linked entry entry' other

end Placed

end TeamPlanning.Trie
