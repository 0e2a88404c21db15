import TeamPlanning.Symbol.Basic
import TeamPlanning.Text.List

/-! # Histories

A history remembers which history it extends and by which symbol, so whole sequences are recovered
by walking back and never stored. A record is a history with a note: nothing for an agent's own
histories, the numbers of the agents' own histories for a joint one. -/

set_option autoImplicit false

namespace TeamPlanning

/-- One history: empty, or the extension of history number `predecessor`, which has `before`
symbols, by the symbol `last`. -/
inductive History (c : HistoryKind) where
  | empty
  | extension (predecessor : Nat) (last : Symbol c) (before : Nat)
  deriving DecidableEq, Repr

namespace History

variable {c : HistoryKind}

def length : History c → Nat
  | .empty => 0
  | .extension _ _ before => before + 1

def predecessor? : History c → Option Nat
  | .empty => none
  | .extension predecessor _ _ => some predecessor

def last? : History c → Option (Symbol c)
  | .empty => none
  | .extension _ last _ => some last

/-- The extension by a symbol of the history, whose own number is `index`. -/
def extend (history : History c) (index : Nat) (symbol : Symbol c) : History c :=
  .extension index symbol history.length

/-- An extension is written as the number that it extends and the symbol that it adds. -/
def text : History c → String
  | .empty => "<EMPTY>"
  | .extension predecessor last _ => s!"#{predecessor} + " ++ last.text

end History

/-- A history with a note. -/
structure Record (c : HistoryKind) (ν : Type) where
  history : History c
  note : ν
  deriving DecidableEq, Repr

namespace Record

variable {c : HistoryKind} {ν : Type}

def start (note : ν) : Record c ν := ⟨.empty, note⟩

/-- The record of the extension by a symbol of a history whose number is `index`. -/
def extend (record : Record c ν) (index : Nat) (symbol : Symbol c) (note : ν) : Record c ν :=
  ⟨record.history.extend index symbol, note⟩

end Record

/-- A joint history, with the number of every agent's own history. -/
abbrev JointHistory (c : HistoryKind) := Record c (List Nat)

/-- A joint history is written with the numbers of the agents' own histories behind it. -/
def JointHistory.text {c : HistoryKind} (history : JointHistory c) : String :=
  history.history.text ++ " " ++ Text.list history.note

end TeamPlanning
