import Mathlib.Data.List.Sort
import TeamPlanning.Proofs.Trie.Edits

/-! # What a tree answers

Every question about a vertex is settled by what it holds, what it hangs from and where its letters
lead. Trees that agree on these give the same answers there, faults included. -/

set_option autoImplicit false

namespace TeamPlanning.Trie

variable {α : Type} {trie before after : Trie α} {v u w : Nat} {letter : Letter}

def Lives (trie : Trie α) (v : Nat) : Prop := ∃ node, trie.node? v = some node

/-- The vertex holds the same and extends the same entry in both trees. -/
structure Keeps (before after : Trie α) (v : Nat) : Prop where
  vertex : after.vertex v = before.vertex v
  predecessor : after.predecessor v = before.predecessor v

/-- A fork from which nothing but `v` hangs. -/
structure SoleFork (trie : Trie α) (fork v : Nat) : Prop where
  isFork : trie.isFork fork = true
  edge : trie.Edge fork v
  only : ∀ u, trie.Edge fork u → u = v

theorem lives_iff : trie.Lives v ↔ ∃ vertex, trie.held? v = some vertex := by
  constructor
  · rintro ⟨node, live⟩
    exact ⟨node.vertex, held?_of_node? live⟩
  · rintro ⟨vertex, held⟩
    obtain ⟨node, live, _⟩ := node?_of_held? held
    exact ⟨node, live⟩

theorem IsEntry.lives (entry : trie.IsEntry v) : trie.Lives v := by
  obtain ⟨index, value, held⟩ := entry
  exact lives_iff.mpr ⟨_, held⟩

theorem not_lives_iff : ¬ trie.Lives v ↔ trie.node? v = none := by
  simp [Lives, Option.eq_none_iff_forall_ne_some]

theorem isEntry_of_lives (lives : trie.Lives v) (entry : trie.isFork v = false) :
    trie.IsEntry v := by
  obtain ⟨node, live⟩ := lives
  rw [isFork_of_node? live] at entry
  exact isEntry_of_node? live entry

/-! ## What the answers depend on -/

theorem vertex_congr (same : after.held? v = before.held? v) :
    after.vertex v = before.vertex v := by
  unfold held? at same
  unfold Trie.vertex Trie.node
  cases live : before.node? v with
  | none =>
      rw [live, Option.map_none, Option.map_eq_none_iff] at same
      rw [same]
  | some node =>
      rw [live, Option.map_some, Option.map_eq_some_iff] at same
      obtain ⟨node', live', vertex⟩ := same
      rw [live']
      exact congrArg Except.ok vertex

theorem successor_eq (trie : Trie α) (v : Nat) (letter : Letter) : trie.successor v letter =
    (trie.vertex v).bind fun vertex =>
      if vertex.isFork then .error (atFork v) else
        match trie.step? v letter with
        | some child => .ok child
        | none => .error (.missing (.vertex (.noSuccessor v letter))) := by
  unfold successor
  cases trie.vertex v with
  | error fault => rfl
  | ok vertex =>
      simp only [bind, Except.bind]
      cases vertex.isFork with
      | true => rfl
      | false =>
          cases letter with
          | one key => rfl
          | pair action observation =>
              simp only [step?]
              cases trie.child? v action <;> rfl

theorem predecessor_eq (trie : Trie α) (v : Nat) : trie.predecessor v =
    (trie.vertex v).bind fun vertex =>
      if vertex.isFork then .error (atFork v) else
        match trie.above? v with
        | none => .error (.missing (.vertex .rootHasNoPredecessor))
        | some parent =>
            if trie.isFork parent then
              match trie.above? parent with
              | some entry => .ok entry
              | none => .error (.missing (.vertex (.detachedFork parent)))
            else .ok parent := by
  unfold predecessor Trie.vertex Trie.node
  cases live : trie.node? v with
  | none => rfl
  | some node =>
      simp only [bind, Except.bind, pure, Except.pure, above?, live, Option.bind_some]
      cases node.vertex.isFork with
      | true => rfl
      | false =>
          cases node.parent with
          | none => rfl
          | some parent => cases trie.isFork parent <;> rfl

/-- An entry's successors depend on its letters, those of a fork on nothing: it has none. -/
theorem successor_congr (same : after.held? v = before.held? v)
    (step : before.isFork v = false → after.step? v letter = before.step? v letter) :
    after.successor v letter = before.successor v letter := by
  rw [successor_eq, successor_eq, vertex_congr same]
  cases fork : before.isFork v with
  | false => rw [step fork]
  | true =>
      rw [isFork_eq, Option.any_eq_true] at fork
      obtain ⟨vertex, held, fork⟩ := fork
      rw [vertex_of_held? held]
      simp [Except.bind, fork]

theorem predecessor_congr (same : after.held? v = before.held? v)
    (above : after.above? v = before.above? v)
    (further : ∀ parent, before.above? v = some parent →
      after.held? parent = before.held? parent ∧ after.above? parent = before.above? parent) :
    after.predecessor v = before.predecessor v := by
  rw [predecessor_eq, predecessor_eq, vertex_congr same, above]
  cases hangs : before.above? v with
  | none => rfl
  | some parent =>
      obtain ⟨same', above'⟩ := further parent hangs
      simp only [isFork_eq, same', above']

theorem predecessor_of_entry (entry : trie.IsEntry v) (hangs : trie.above? v = some u)
    (above : trie.isFork u = false) : trie.predecessor v = .ok u := by
  obtain ⟨index, value, held⟩ := entry
  rw [predecessor_eq, vertex_of_held? held]
  simp [Except.bind, Vertex.isFork, hangs, above]

theorem predecessor_of_fork (entry : trie.IsEntry v) (hangs : trie.above? v = some u)
    (above : trie.isFork u = true) (further : trie.above? u = some w) :
    trie.predecessor v = .ok w := by
  obtain ⟨index, value, held⟩ := entry
  rw [predecessor_eq, vertex_of_held? held]
  simp [Except.bind, Vertex.isFork, hangs, above, further]

theorem IsEntry.successor_eq_ok_iff (entry : trie.IsEntry v) :
    trie.successor v letter = .ok u ↔ trie.step? v letter = some u := by
  obtain ⟨index, value, held⟩ := entry
  exact (successor_answers held letter).eq_ok_iff

theorem IsEntry.successor_eq_error (entry : trie.IsEntry v)
    (nowhere : trie.step? v letter = none) :
    trie.successor v letter = .error (.missing (.vertex (.noSuccessor v letter))) := by
  obtain ⟨index, value, held⟩ := entry
  rw [successor_eq, vertex_of_held? held, nowhere]
  rfl

theorem Linked.lives_of_step? (linked : trie.Linked) (step : trie.step? v letter = some u) :
    trie.Lives u := by
  obtain ⟨_, hangs⟩ := linked.above?_of_step? step
  exact live_of_above? hangs

/-! ## Listing successors -/

/-- A letter leads from one vertex to an entry, at once or behind a fork. -/
inductive Leads (trie : Trie α) (v : Nat) : Letter → Nat → Prop where
  | single {key w : Nat} (found : trie.child? v key = some w) (entry : trie.isFork w = false) :
      Leads trie v (.one key) w
  | paired {action observation fork w : Nat} (found : trie.child? v action = some fork)
      (isFork : trie.isFork fork = true) (below : trie.child? fork observation = some w) :
      Leads trie v (.pair action observation) w

theorem leads_iff : trie.Leads v letter w ↔
    trie.step? v letter = some w ∧ (letter.isPair = false → trie.isFork w = false) := by
  constructor
  · intro leads
    cases leads with
    | single found entry => exact ⟨found, fun _ => entry⟩
    | paired found isFork below =>
        refine ⟨?_, fun single => by cases single⟩
        simp [step?, found, isFork, below]
  · rintro ⟨step, entry⟩
    cases letter with
    | one key => exact .single step (entry rfl)
    | pair action observation =>
        obtain ⟨fork, found, step⟩ := Option.bind_eq_some_iff.mp step
        split at step
        · rename_i isFork
          exact .paired found isFork step
        · cases step

/-- The letters that begin with the key of a child: one to the child, or one to each entry behind a
fork. -/
def lettersAt (trie : Trie α) : Nat × Nat → List (Letter × Nat)
  | (key, child) =>
      if trie.isFork child then
        (trie.children child).map fun (observation, entry) => (Letter.pair key observation, entry)
      else [(Letter.one key, child)]

theorem lettersAt_of_fork {key child : Nat} (isFork : trie.isFork child = true) :
    trie.lettersAt (key, child) =
      (trie.children child).map fun (observation, entry) => (.pair key observation, entry) :=
  if_pos isFork

theorem lettersAt_of_entry {key child : Nat} (entry : trie.isFork child = false) :
    trie.lettersAt (key, child) = [(.one key, child)] :=
  if_neg (ne_true_of_eq_false entry)

def unsorted (trie : Trie α) (v : Nat) : List (Letter × Nat) :=
  (trie.children v).flatMap trie.lettersAt

theorem successors_eq_insertionSort (trie : Trie α) (v : Nat) : trie.successors v =
    (trie.unsorted v).insertionSort fun one other => one.1.le other.1 = true := by
  have inserts : ∀ entry letters, insertLetter entry letters =
      letters.orderedInsert (fun one other => one.1.le other.1 = true) entry := by
    intro entry letters
    induction letters with
    | nil => rfl
    | cons other letters ih => rw [insertLetter, List.orderedInsert_cons, ih]
  rw [List.insertionSort, ← funext fun entry => funext (inserts entry)]
  rfl

theorem Linked.mem_successors_iff_leads (linked : trie.Linked) :
    (letter, w) ∈ trie.successors v ↔ trie.Leads v letter w := by
  rw [successors_eq_insertionSort, List.mem_insertionSort, unsorted, List.mem_flatMap]
  constructor
  · rintro ⟨⟨key, child⟩, member, listed⟩
    have found := linked.child?_eq_some_iff.mpr member
    cases isFork : trie.isFork child with
    | true =>
        rw [lettersAt_of_fork isFork] at listed
        obtain ⟨⟨observation, entry⟩, below, same⟩ := List.mem_map.mp listed
        cases same
        exact .paired found isFork (linked.child?_eq_some_iff.mpr below)
    | false =>
        rw [lettersAt_of_entry isFork] at listed
        cases List.mem_singleton.mp listed
        exact .single found isFork
  · intro leads
    cases leads with
    | @single key _ found entry =>
        refine ⟨(key, w), linked.child?_eq_some_iff.mp found, ?_⟩
        simp [lettersAt_of_entry entry]
    | @paired action observation fork _ found isFork below =>
        refine ⟨(action, fork), linked.child?_eq_some_iff.mp found, ?_⟩
        simp [lettersAt_of_fork isFork, linked.child?_eq_some_iff.mp below]

theorem Linked.mem_map_successors_iff (linked : trie.Linked) :
    w ∈ (trie.successors v).map (·.2) ↔ ∃ letter, trie.Leads v letter w := by
  constructor
  · intro member
    obtain ⟨⟨letter, _⟩, listed, rfl⟩ := List.mem_map.mp member
    exact ⟨letter, linked.mem_successors_iff_leads.mp listed⟩
  · rintro ⟨letter, leads⟩
    exact List.mem_map_of_mem (f := Prod.snd) (linked.mem_successors_iff_leads.mpr leads)

/-- All letters are listed that lead anywhere, except for those to forks. -/
theorem Linked.mem_successors_iff (linked : trie.Linked) :
    (letter, w) ∈ trie.successors v ↔
      trie.step? v letter = some w ∧ (letter.isPair = false → trie.isFork w = false) :=
  linked.mem_successors_iff_leads.trans leads_iff

end TeamPlanning.Trie
