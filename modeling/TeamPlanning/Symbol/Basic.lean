
/-! # Symbols

Three kinds of histories are kept for every agent and for the team. What one stage appends to a
history of a kind is a symbol of that kind: an observation, an action, or an action followed by
the observation it led to. The same types serve one agent and the team, whose symbols are
joint. -/

set_option autoImplicit false

namespace TeamPlanning

/-- The three kinds of histories. -/
inductive HistoryKind where
  | observation
  | action
  | actionObservation
  deriving DecidableEq, Repr

def HistoryKind.text : HistoryKind → String
  | .observation => "observation"
  | .action => "action"
  | .actionObservation => "action-observation"

/-- How many actions and observations one agent has, or the team. -/
structure Alphabet where
  actions : Nat
  observations : Nat
  deriving DecidableEq, Repr

/-- What one stage appends to a history of the given kind. -/
inductive Symbol : HistoryKind → Type where
  | observation (observation : Nat) : Symbol .observation
  | action (action : Nat) : Symbol .action
  | actionObservation (action observation : Nat) : Symbol .actionObservation
  deriving DecidableEq, Repr

/-- Actions are written `a0`, `a1`, …, observations `o0`, `o1`, …, and pairs in parentheses. -/
def Symbol.text : {c : HistoryKind} → Symbol c → String
  | _, .observation o => s!"o{o}"
  | _, .action a => s!"a{a}"
  | _, .actionObservation a o => s!"(a{a}, o{o})"

/-- What leads from one entry of a tree of histories to the next: a symbol of one part or of two. -/
inductive Letter where
  | one (symbol : Nat)
  | pair (action observation : Nat)
  deriving DecidableEq, Repr

namespace Letter

/-- A single part is written as a number, a pair in parentheses. -/
def text : Letter → String
  | .one s => s!"{s}"
  | .pair a o => s!"({a}, {o})"

/-- Single parts come before pairs; pairs are ordered by action, then by observation. -/
def le : Letter → Letter → Bool
  | .one s, .one t => s ≤ t
  | .one _, .pair _ _ => true
  | .pair _ _, .one _ => false
  | .pair a o, .pair b p => a < b || (a == b && o ≤ p)

end Letter

/-- The letter of a symbol: pairs keep both parts. -/
def Symbol.letter : {c : HistoryKind} → Symbol c → Letter
  | _, .observation o => .one o
  | _, .action a => .one a
  | _, .actionObservation a o => .pair a o

/-- No two symbols of a kind share a letter. -/
theorem Symbol.letter_injective {c : HistoryKind} {s t : Symbol c}
    (same : s.letter = t.letter) : s = t := by
  cases s <;> cases t <;> simp_all [Symbol.letter]

end TeamPlanning
