import TeamPlanning.History.Basic
import TeamPlanning.Radix
import TeamPlanning.Stage.Layout
import TeamPlanning.Symbol.Digit
import TeamPlanning.Trie.Numbered

/-! # History spaces

All histories of one kind with fewer symbols than the horizon, for one agent or for the team. They
are numbered stage by stage and within a stage like words: the number of a history is the start of
its stage plus the number of its word over the alphabet.

An eager space holds the record of every history and answers from its tree. A space in closed form
answers the same questions from the layout of stages alone, and holds only the records that were
asked for. -/

set_option autoImplicit false

namespace TeamPlanning

/-- All histories of one kind over an alphabet, with the records held of them. -/
structure HistorySpace (c : HistoryKind) (ν : Type) where
  alphabet : Alphabet
  base : Nat
  layout : StageLayout
  records : NumberedTrie (Record c ν)
  eager : Bool
  deriving DecidableEq, Repr

namespace HistorySpace

variable {c : HistoryKind} {ν : Type}

/-- Describes every history by the layout of stages, and holds the empty one. -/
def closedForm (alphabet : Alphabet) (horizon : Nat) (note : ν) :
    Except Fault (HistorySpace c ν) := do
  let base ← c.base alphabet
  let layout ← StageLayout.geometric base horizon
  let records ← NumberedTrie.sparse (Record.start note)
  return { alphabet, base, layout, records, eager := false }

def total (space : HistorySpace c ν) : Nat := space.layout.total

/-- How many records are held: all of them in an eager space. -/
def held (space : HistorySpace c ν) : Nat := space.records.size

def trie (space : HistorySpace c ν) : Trie (Record c ν) := space.records.trie

def record (space : HistorySpace c ν) (index : Nat) : Except Fault (Record c ν) :=
  match space.records.get? index with
  | some record => .ok record
  | none =>
      if space.eager || space.total ≤ index then
        .error (.missing (.history c index space.total))
      else .error (.notHeld c index)

def stageOf (space : HistorySpace c ν) (index : Nat) : Except Fault Nat :=
  if space.eager then do return (← space.record index).history.length
  else space.layout.stageOf index

/-- The number of the extension by a digit of a history of the given stage. -/
def successorNumber (space : HistorySpace c ν) (index stage digit : Nat) : Except Fault Nat := do
  let here ← space.layout.startAt stage
  let next ← space.layout.startAt (stage + 1)
  let shifted ← Bounded.mul (Word.sub index here) space.base
  Bounded.add (← Bounded.add shifted digit) next

/-- The symbols of a history, oldest first, read off its number. -/
def wordOf (space : HistorySpace c ν) (index : Nat) : Except Fault (List (Symbol c)) := do
  let stage ← space.layout.stageOf index
  let start ← space.layout.startAt stage
  let digits ← Radix.decode (Word.sub index start) stage space.base
  return digits.map (Symbol.ofDigit c · space.alphabet)

def successor (space : HistorySpace c ν) (index : Nat) (symbol : Symbol c) : Except Fault Nat := do
  let digit ← symbol.validDigit space.alphabet
  let stage ← space.stageOf index
  if space.layout.stages ≤ stage + 1 then
    throw (.missing (.afterLastStage c index stage))
  if space.eager then
    match space.records.vertex? index with
    | some v => space.trie.index (← space.trie.successor v symbol.letter)
    | none => throw (.missing (.historyVertex c index))
  else space.successorNumber index stage digit

/-- Walks back from a record through at most `steps` predecessors, the latest symbol first. -/
def walkBack (space : HistorySpace c ν) : Nat → Record c ν → Except Fault (List (Symbol c))
  | 0, _ => .ok []
  | steps + 1, record =>
      match record.history with
      | .empty => .ok []
      | .extension predecessor last _ => do
          let earlier ← walkBack space steps (← space.record predecessor)
          return last :: earlier

/-- The symbols of a history, oldest first. -/
def symbols (space : HistorySpace c ν) (index : Nat) : Except Fault (List (Symbol c)) :=
  if space.eager then do
    let record ← space.record index
    return (← space.walkBack record.history.length record).reverse
  else space.wordOf index

def descendFrom (space : HistorySpace c ν) (v : Nat) (symbols : List (Symbol c)) :
    Except Fault Nat :=
  symbols.foldlM (fun v symbol => space.trie.successor v symbol.letter) v

/-- The number of the history with the given symbols, oldest first. -/
def indexOf (space : HistorySpace c ν) (symbols : List (Symbol c)) : Except Fault Nat := do
  let digits ← symbols.mapM (·.validDigit space.alphabet)
  if space.eager then space.trie.index (← space.descendFrom Trie.root symbols)
  else
    let start ← space.layout.startAt symbols.length
    Bounded.add start (← Radix.encode digits space.base)

end HistorySpace

end TeamPlanning
