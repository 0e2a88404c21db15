import TeamPlanning.Sparse
import TeamPlanning.Trie.Edit

/-! # Numbered trees

A tree together with the way back from an index to its vertex. A tree that holds every history is
numbered densely; one that holds only the paths asked for remembers the indices it has seen. -/

set_option autoImplicit false

namespace TeamPlanning

/-- Where the vertex of an index is found. -/
inductive VertexTable where
  | dense (vertices : Array Nat)
  | sparse (vertices : List (Nat × Nat))
  deriving DecidableEq, Repr

/-- A tree of values that are found by index. -/
structure NumberedTrie (α : Type) where
  trie : Trie α
  vertices : VertexTable
  deriving DecidableEq, Repr

namespace NumberedTrie

variable {α : Type}

def sparse (value : α) : Except Fault (NumberedTrie α) := do
  return ⟨← (Trie.singleton value).assign Trie.root 0, .sparse [(0, Trie.root)]⟩

/-- Finds index `i` at the `i`-th of the given vertices. -/
def dense (trie : Trie α) (vertices : Array Nat) : NumberedTrie α := ⟨trie, .dense vertices⟩

def size (numbered : NumberedTrie α) : Nat :=
  match numbered.vertices with
  | .dense vertices => vertices.size
  | .sparse vertices => vertices.length

def vertex? (numbered : NumberedTrie α) (index : Nat) : Option Nat :=
  match numbered.vertices with
  | .dense vertices => vertices[index]?
  | .sparse vertices => Sparse.get? vertices index

def get? (numbered : NumberedTrie α) (index : Nat) : Option α :=
  (numbered.vertex? index).bind fun v => (numbered.trie.value v).toOption

/-- Remembers the vertex of an index. A dense numbering is complete and stays as it is. -/
def remember (numbered : NumberedTrie α) (index v : Nat) : NumberedTrie α :=
  match numbered.vertices with
  | .dense _ => numbered
  | .sparse vertices => { numbered with vertices := .sparse (Sparse.insert vertices index v) }

end NumberedTrie

end TeamPlanning
