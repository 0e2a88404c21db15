import TeamPlanning.History.Space

/-! # Building eager history spaces

Every history is visited breadth-first: it gets the next number, and unless it has reached the last
stage its extensions by every symbol are filed below it. The tally of the visit must agree with the
closed form; where an alphabet has no symbols, or no stage is planned for, the two differ. -/

set_option autoImplicit false

namespace TeamPlanning.HistorySpace

variable {c : HistoryKind} {ν : Type}

/-- How far a breadth-first visit has come: the tree with the vertices numbered so far, and the
tally of their stages. -/
structure Visit (c : HistoryKind) (ν : Type) where
  trie : Trie (Record c ν)
  vertices : Array Nat
  tally : StageLayout

namespace Visit

/-- Gives a vertex the next number and notes its stage. Answers its record as well. -/
def number (visit : Visit c ν) (v : Nat) : Except Fault (Record c ν × Visit c ν) := do
  let index := visit.vertices.size
  let trie ← visit.trie.assign v index
  let record ← trie.value v
  return (record, ⟨trie, visit.vertices.push v, visit.tally.note record.history.length index⟩)

/-- Files the extension by the symbol of a digit below vertex `v`, whose history is number `index`
and has the given record. The new vertex goes to the end of the queue. -/
def extend (noteOf : ν → Nat → Symbol c → Except Fault ν) (alphabet : Alphabet) (v index : Nat)
    (record : Record c ν) (state : Visit c ν × Array Nat) (digit : Nat) :
    Except Fault (Visit c ν × Array Nat) := do
  let (visit, queue) := state
  let symbol := Symbol.ofDigit c digit alphabet
  let note ← noteOf record.note index symbol
  let (child, trie) ← visit.trie.insert v symbol.letter (record.extend index symbol note)
  return ({ visit with trie }, queue.push child)

/-- Numbers a vertex and files its extensions by every symbol. -/
def expand (noteOf : ν → Nat → Symbol c → Except Fault ν) (alphabet : Alphabet) (base : Nat)
    (state : Visit c ν × Array Nat) (v : Nat) : Except Fault (Visit c ν × Array Nat) := do
  let (visit, queue) := state
  let index := visit.vertices.size
  let (record, visit) ← visit.number v
  (List.range base).foldlM (extend noteOf alphabet v index record) (visit, queue)

/-- Visits the vertices of one stage and then those of the `further` stages after it. -/
def stages (noteOf : ν → Nat → Symbol c → Except Fault ν) (alphabet : Alphabet) (base : Nat) :
    (further : Nat) → List Nat → Visit c ν → Except Fault (Visit c ν)
  | 0, level, visit => level.foldlM (fun visit v => do return (← visit.number v).2) visit
  | further + 1, level, visit => do
      let (visit, next) ← level.foldlM (expand noteOf alphabet base) (visit, #[])
      stages noteOf alphabet base further next.toList visit

end Visit

/-- Builds the records of all histories with fewer than `horizon` symbols. `noteOf` makes the note
of an extension from the note and the number of the history extended and the symbol. -/
def enumerate (alphabet : Alphabet) (horizon : Nat) (note : ν)
    (noteOf : ν → Nat → Symbol c → Except Fault ν) : Except Fault (HistorySpace c ν) := do
  let base ← c.base alphabet
  let expected ← StageLayout.geometric base horizon
  let start : Visit c ν := ⟨Trie.singleton (Record.start note), #[], StageLayout.empty⟩
  let visit ← Visit.stages noteOf alphabet base (horizon - 1) [Trie.root] start
  let layout := visit.tally.finish visit.vertices.size
  if layout ≠ expected then throw (.inconsistent c)
  if visit.vertices.size ≠ (← Bounded.geometricSum base horizon) then throw (.inconsistent c)
  return { alphabet, base, layout, records := .dense visit.trie visit.vertices, eager := true }

end TeamPlanning.HistorySpace
