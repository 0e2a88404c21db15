import TeamPlanning.Bounded
import TeamPlanning.Symbol.Basic

/-! # Symbols as digits

Over an alphabet the symbols of a kind are the digits `0, 1, …, base - 1`. A pair of an action and
an observation is the digit that orders pairs by action first. -/

set_option autoImplicit false

namespace TeamPlanning

def HistoryKind.base : HistoryKind → Alphabet → Except Fault Nat
  | .observation, alphabet => .ok alphabet.observations
  | .action, alphabet => .ok alphabet.actions
  | .actionObservation, alphabet => Bounded.mul alphabet.actions alphabet.observations

namespace Symbol

/-- The digit of a symbol. It names the symbol only if that lies within the alphabet. -/
def digit : {c : HistoryKind} → Symbol c → Alphabet → Nat
  | _, .observation o, _ => o
  | _, .action a, _ => a
  | _, .actionObservation a o, alphabet => Word.add (Word.mul a alphabet.observations) o

def ofDigit : (c : HistoryKind) → Nat → Alphabet → Symbol c
  | .observation, digit, _ => .observation digit
  | .action, digit, _ => .action digit
  | .actionObservation, digit, alphabet =>
      .actionObservation (digit / alphabet.observations) (digit % alphabet.observations)

/-- Whether every part of the symbol lies in the alphabet. -/
def within : {c : HistoryKind} → Symbol c → Alphabet → Bool
  | _, .observation o, alphabet => o < alphabet.observations
  | _, .action a, alphabet => a < alphabet.actions
  | _, .actionObservation a o, alphabet => a < alphabet.actions && o < alphabet.observations

/-- The digit of a symbol, which must lie within the alphabet. -/
def validDigit {c : HistoryKind} (symbol : Symbol c) (alphabet : Alphabet) : Except Fault Nat :=
  if symbol.within alphabet then .ok (symbol.digit alphabet)
  else .error (.missing (.symbol symbol alphabet))

end Symbol

end TeamPlanning
