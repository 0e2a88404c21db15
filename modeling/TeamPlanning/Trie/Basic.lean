import TeamPlanning.Fault.Basic

/-! # Trees of histories

A trie files values under words of letters. A single letter leads from a value to the next. A pair
of an action and an observation leads through a fork: a vertex without value or index that gathers
the observations after one action.

Vertices are known by number and keep it while they live. The root is number 0. Numbers given up
are used again, the one given up last first; only then the next number never used is taken. -/

set_option autoImplicit false

namespace TeamPlanning

/-- What a vertex holds: a value and, once assigned, its index; or nothing, at a fork. -/
inductive Vertex (α : Type) where
  | entry (index : Option Nat) (value : α)
  | fork
  deriving DecidableEq, Repr

namespace Vertex

variable {α : Type}

def isFork : Vertex α → Bool
  | .entry _ _ => false
  | .fork => true

def value? : Vertex α → Option α
  | .entry _ value => some value
  | .fork => none

def index? : Vertex α → Option Nat
  | .entry index _ => index
  | .fork => none

end Vertex

namespace Trie

/-- A vertex in its place: the vertex that it hangs from, and the vertices that hang from it with
their keys, the latest addition first. -/
structure Node (α : Type) where
  vertex : Vertex α
  parent : Option Nat
  children : List (Nat × Nat)
  deriving DecidableEq, Repr

/-- Vertex numbers are 32 bits wide where a caller names a vertex. Nothing that a trie does itself cuts
them short. -/
def vertexNumber (number : Nat) : Nat := number % Nat.pow 2 32

end Trie

/-- A tree of values. Slot `v` holds vertex `v` while it lives; `free` lists the numbers given up,
the latest first. -/
structure Trie (α : Type) where
  slots : Array (Option (Trie.Node α))
  free : List Nat
  deriving DecidableEq, Repr

namespace Trie

variable {α : Type}

def root : Nat := 0

def singleton (value : α) : Trie α := ⟨#[some ⟨.entry none value, none, []⟩], []⟩

def node? (trie : Trie α) (v : Nat) : Option (Node α) := trie.slots[v]?.join

/-- How many vertices live, forks included. -/
def size (trie : Trie α) : Nat := trie.slots.toList.countP Option.isSome

private def absent (v : Nat) : Fault := .missing (.vertex (.absent v))

def atFork (v : Nat) : Fault := .missing (.vertex (.fork v))

/-- The node of a live vertex, or a fault. -/
def node (trie : Trie α) (v : Nat) : Except Fault (Node α) :=
  match trie.node? v with
  | some node => .ok node
  | none => .error (absent v)

def vertex (trie : Trie α) (v : Nat) : Except Fault (Vertex α) := do
  return (← trie.node v).vertex

def value (trie : Trie α) (v : Nat) : Except Fault α := do
  match ← trie.vertex v with
  | .entry _ value => return value
  | .fork => throw (atFork v)

def index (trie : Trie α) (v : Nat) : Except Fault Nat := do
  match ← trie.vertex v with
  | .entry (some index) _ => return index
  | .entry none _ => throw (.missing (.vertex (.unnumbered v)))
  | .fork => throw (atFork v)

/-- Whether a live vertex is a fork. -/
def isFork (trie : Trie α) (v : Nat) : Bool := (trie.node? v).any (·.vertex.isFork)

/-- The vertices that hang from a vertex with their keys, the latest addition first. -/
def children (trie : Trie α) (v : Nat) : List (Nat × Nat) :=
  ((trie.node? v).map (·.children)).getD []

/-- The vertex that hangs from `v` under a key. -/
def child? (trie : Trie α) (v key : Nat) : Option Nat :=
  ((trie.children v).find? (·.1 == key)).map (·.2)

/-- The vertex reached from an entry by a letter. A single letter may lead to a fork. -/
def successor (trie : Trie α) (v : Nat) (letter : Letter) : Except Fault Nat := do
  if (← trie.vertex v).isFork then throw (atFork v)
  let found := match letter with
    | .one key => trie.child? v key
    | .pair action observation =>
        match trie.child? v action with
        | some fork => if trie.isFork fork then trie.child? fork observation else none
        | none => none
  match found with
  | some child => return child
  | none => throw (.missing (.vertex (.noSuccessor v letter)))

/-- The entry that an entry extends, skipping any fork between them. -/
def predecessor (trie : Trie α) (v : Nat) : Except Fault Nat := do
  let node ← trie.node v
  if node.vertex.isFork then throw (atFork v)
  match node.parent with
  | none => throw (.missing (.vertex .rootHasNoPredecessor))
  | some parent =>
      if trie.isFork parent then
        match (trie.node? parent).bind (·.parent) with
        | some entry => return entry
        | none => throw (.missing (.vertex (.detachedFork parent)))
      else return parent

/-- Inserts a letter with its vertex before the first letter that is not smaller. -/
def insertLetter (entry : Letter × Nat) : List (Letter × Nat) → List (Letter × Nat)
  | [] => [entry]
  | other :: rest =>
      if entry.1.le other.1 then entry :: other :: rest else other :: insertLetter entry rest

/-- The letters from an entry to the entries that extend it, in the order of letters. -/
def successors (trie : Trie α) (v : Nat) : List (Letter × Nat) :=
  let letters := (trie.children v).flatMap fun (key, child) =>
    if trie.isFork child then
      (trie.children child).map fun (observation, entry) => (Letter.pair key observation, entry)
    else [(Letter.one key, child)]
  letters.foldr insertLetter []

end Trie

end TeamPlanning
