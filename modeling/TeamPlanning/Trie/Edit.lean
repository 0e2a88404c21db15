import TeamPlanning.Trie.Basic

/-! # Editing a tree of histories

An index is assigned once. A successor is never overwritten: replacing one is asked for by name and
drops what hung from it. An edit that fails yields no tree, so the tree before it stands. -/

set_option autoImplicit false

namespace TeamPlanning.Trie

variable {α : Type}

def put (trie : Trie α) (v : Nat) (node : Option (Node α)) : Trie α :=
  { trie with slots := trie.slots.setIfInBounds v node }

/-- Assigns an index to an entry. Assigning the same index again changes nothing. -/
def assign (trie : Trie α) (v index : Nat) : Except Fault (Trie α) := do
  let node ← trie.node v
  match node.vertex with
  | .fork => throw (atFork v)
  | .entry held value =>
      match held with
      | some held =>
          if held = index then return trie
          else throw (.missing (.vertex (.numbered v held index)))
      | none => return trie.put v (some { node with vertex := .entry (some index) value })

/-- Gives a new vertex a number: the one given up last, or the next never used. Numbers are taken never
to run out: that a graph has room for 2^32 - 1 vertices only is not modelled. -/
def allocate (trie : Trie α) (node : Node α) : Nat × Trie α :=
  match trie.free with
  | v :: free => (v, { trie.put v (some node) with free })
  | [] => (trie.slots.size, { trie with slots := trie.slots.push (some node) })

/-- Hangs a new vertex from the vertex `v` under a key that is not taken. -/
def link (trie : Trie α) (v key : Nat) (vertex : Vertex α) : Except Fault (Nat × Trie α) := do
  let node ← trie.node v
  match trie.child? v key with
  | some _ => throw (.missing (.vertex (.occupied v key)))
  | none =>
      let (child, trie) := trie.allocate ⟨vertex, some v, []⟩
      return (child, trie.put v (some { node with children := (key, child) :: node.children }))

/-- The fork for an action below an entry, made if nothing hangs there yet. -/
def forkAt (trie : Trie α) (v action : Nat) : Except Fault (Nat × Trie α) :=
  match trie.child? v action with
  | some child =>
      if trie.isFork child then .ok (child, trie)
      else .error (.missing (.vertex (.notFork action v)))
  | none => trie.link v action .fork

/-- Installs a value as the successor of an entry by a letter that leads nowhere yet. -/
def insert (trie : Trie α) (v : Nat) (letter : Letter) (value : α) :
    Except Fault (Nat × Trie α) := do
  if (← trie.vertex v).isFork then throw (atFork v)
  match letter with
  | .one key => trie.link v key (.entry none value)
  | .pair action observation =>
      let (fork, trie) ← trie.forkAt v action
      trie.link fork observation (.entry none value)

/-- The vertices on the stack and all that hang from them, every vertex before its children and
older children before younger ones. The first argument bounds how many are listed. -/
def descend (trie : Trie α) : Nat → List Nat → List Nat
  | 0, _ => []
  | _ + 1, [] => []
  | bound + 1, v :: stack =>
      v :: descend trie bound (((trie.children v).map (·.2)).reverse ++ stack)

def subtree (trie : Trie α) (v : Nat) : List Nat := trie.descend trie.slots.size [v]

def detach (trie : Trie α) (v : Nat) : Trie α :=
  match (trie.node? v).bind (·.parent) with
  | none => trie
  | some parent =>
      match trie.node? parent with
      | none => trie
      | some node =>
          trie.put parent (some { node with children := node.children.filter (·.2 != v) })

def release (trie : Trie α) (v : Nat) : Trie α :=
  { trie.put v none with free := v :: trie.free }

/-- Drops a vertex with all that hangs from it, and the fork that this empties. Answers how many
vertices were dropped, the fork not counted. -/
def erase (trie : Trie α) (v : Nat) : Except Fault (Nat × Trie α) := do
  if v = root then throw (.missing (.vertex .rootIsKept))
  let node ← trie.node v
  let doomed := trie.subtree v
  let remaining := doomed.foldl release (trie.detach v)
  let emptied := match node.parent with
    | some parent =>
        if trie.isFork parent && (remaining.children parent).isEmpty then
          (remaining.detach parent).release parent
        else remaining
    | none => remaining
  return (doomed.length, emptied)

/-- Installs a value as the successor of an entry by a letter, dropping what the letter led to. -/
def replace (trie : Trie α) (v : Nat) (letter : Letter) (value : α) :
    Except Fault (Nat × Trie α) :=
  match trie.successor v letter with
  | .ok old => do
      let (_, remaining) ← trie.erase old
      remaining.insert v letter value
  | .error _ => trie.insert v letter value

/-- The successor of an entry by a letter. If there is none, `make` answers its value and index from
the value of the entry. -/
def getOrInsert (trie : Trie α) (v : Nat) (letter : Letter)
    (make : α → Except Fault (α × Nat)) : Except Fault (Nat × Trie α) :=
  match trie.successor v letter with
  | .ok child => .ok (child, trie)
  | .error _ => do
      let (value, index) ← make (← trie.value v)
      let (child, trie) ← trie.insert v letter value
      return (child, ← trie.assign child index)

end TeamPlanning.Trie
