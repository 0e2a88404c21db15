import TeamPlanning.Trie.Edit

/-! # Editing a tree in place

The same edits, made on one tree step by step. An edit that fails leaves whatever it has done so far:
what it drops is dropped and what it makes is there, unless it fails before. -/

set_option autoImplicit false

namespace TeamPlanning.Trie

/-- An edit in place answers or fails, and leaves a tree in either case. -/
abbrev Editing (α β : Type) := ExceptT Fault (StateM (Trie α)) β

namespace Editing

variable {α β : Type}

def on (edit : Editing α β) (trie : Trie α) : Except Fault β × Trie α := edit.run.run trie

def assign (v index : Nat) : Editing α Unit := do
  let node ← (← get).node v
  match node.vertex with
  | .fork => throw (atFork v)
  | .entry held value =>
      match held with
      | some held => unless held = index do throw (.missing (.vertex (.numbered v held index)))
      | none => modify (·.put v (some { node with vertex := .entry (some index) value }))

def link (v key : Nat) (vertex : Vertex α) : Editing α Nat := do
  let node ← (← get).node v
  match (← get).child? v key with
  | some _ => throw (.missing (.vertex (.occupied v key)))
  | none =>
      let child ← modifyGet (·.allocate ⟨vertex, some v, []⟩)
      modify (·.put v (some { node with children := (key, child) :: node.children }))
      return child

def forkAt (v action : Nat) : Editing α Nat := do
  match (← get).child? v action with
  | some child =>
      if (← get).isFork child then return child
      else throw (.missing (.vertex (.notFork action v)))
  | none => link v action .fork

def insert (v : Nat) (letter : Letter) (value : α) : Editing α Nat := do
  if (← (← get).vertex v).isFork then throw (atFork v)
  match letter with
  | .one key => link v key (.entry none value)
  | .pair action observation =>
      let fork ← forkAt v action
      link fork observation (.entry none value)

def erase (v : Nat) : Editing α Nat := do
  if v = root then throw (.missing (.vertex .rootIsKept))
  let node ← (← get).node v
  let doomed := (← get).subtree v
  modify (·.detach v)
  for u in doomed do modify (·.release u)
  if let some parent := node.parent then
    if (← get).isFork parent && ((← get).children parent).isEmpty then
      modify (·.detach parent)
      modify (·.release parent)
  return doomed.length

def replace (v : Nat) (letter : Letter) (value : α) : Editing α Nat := do
  if let .ok old := (← get).successor v letter then
    let _ ← erase old
  insert v letter value

def getOrInsert (v : Nat) (letter : Letter) (make : α → Except Fault (α × Nat)) :
    Editing α Nat := do
  match (← get).successor v letter with
  | .ok child => return child
  | .error _ =>
      let (value, index) ← make (← (← get).value v)
      let child ← insert v letter value
      assign child index
      return child

end Editing

end TeamPlanning.Trie
