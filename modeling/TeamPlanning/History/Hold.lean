import TeamPlanning.History.Space

/-! # Records on demand

A space in closed form makes the record of a history on demand, together with the records of the
histories on the way to it. A refused record ends this; the records made before it are kept. -/

set_option autoImplicit false

namespace TeamPlanning.HistorySpace

variable {c : HistoryKind} {ν : Type}

/-- Makes the records along the given symbols, starting below vertex `v`, whose history is number
`current` and has the given stage. -/
def holdAlong (noteOf : ν → Nat → Symbol c → Except Fault ν) :
    List (Symbol c) → (stage current v : Nat) → HistorySpace c ν →
    Except Fault Unit × HistorySpace c ν
  | [], _, _, _, space => (.ok (), space)
  | symbol :: symbols, stage, current, v, space =>
      let made := do
        let next ← space.successorNumber current stage (symbol.digit space.alphabet)
        let (child, trie) ← space.trie.getOrInsert v symbol.letter fun record => do
          let note ← noteOf record.note current symbol
          return (record.extend current symbol note, next)
        return (next, child, trie)
      match made with
      | .error fault => (.error fault, space)
      | .ok (next, child, trie) =>
          let records := { space.records with trie }.remember next child
          holdAlong noteOf symbols (stage + 1) next child { space with records }

/-- The record of a history, made if it is not held yet, and the space that holds it. -/
def hold (space : HistorySpace c ν) (index : Nat) (noteOf : ν → Nat → Symbol c → Except Fault ν) :
    Except Fault (Record c ν) × HistorySpace c ν :=
  if (space.records.get? index).isSome then (space.record index, space)
  else
    match space.wordOf index with
    | .error fault => (.error fault, space)
    | .ok symbols =>
        match holdAlong noteOf symbols 0 0 Trie.root space with
        | (.error fault, longer) => (.error fault, longer)
        | (.ok (), longer) => (longer.record index, longer)

end TeamPlanning.HistorySpace
