import TeamPlanning.Symbol.Basic
import TeamPlanning.Policy.Domain
import TeamPlanning.Horizon.Basic

/-! # Faults

Every operation that can fail answers with a fault: a cause, grouped by what is wrong with the
request. Faults are values of the domain; how they are worded is `Fault.message`'s business.

One group is no answer: where the machine halts, nothing is handed back to whoever asked, and the run
is over. -/

set_option autoImplicit false

namespace TeamPlanning

namespace Fault

/-- Results that leave the range of indices. -/
inductive Excess where
  | product (left right : Nat)
  | sum (left right : Nat)
  | power (base : Nat) (exponent : Nat)
  deriving DecidableEq, Repr

/-- What the machine cannot do: unchecked arithmetic beyond the words, and arrays beyond their
capacity. -/
inductive Halt where
  | product
  | sum
  | capacity
  deriving DecidableEq, Repr

/-- Requests for a vertex of a tree of histories that is missing or of the wrong kind. -/
inductive NoVertex where
  | absent (vertex : Nat)
  | fork (vertex : Nat)
  | unnumbered (vertex : Nat)
  | numbered (vertex : Nat) (held refused : Nat)
  | noSuccessor (vertex : Nat) (letter : Letter)
  | rootHasNoPredecessor
  | detachedFork (vertex : Nat)
  | rootIsKept
  | occupied (vertex : Nat) (key : Nat)
  | notFork (key : Nat) (vertex : Nat)
  deriving DecidableEq, Repr

/-- Requests for something that does not exist. -/
inductive Missing where
  | digit (digit base : Nat)
  | emptyAlphabet
  | digits (index : Nat) (length : Nat) (base : Nat)
  | jointIndex (joint : Nat) (sizes : List Nat)
  | indexCount (given agents : Nat)
  | individualIndex (index size : Nat)
  | symbol {c : HistoryKind} (symbol : Symbol c) (alphabet : Alphabet)
  | stage (stage horizon : Nat)
  | historyIndex (index total : Nat)
  | vertex (cause : NoVertex)
  | history (kind : HistoryKind) (index total : Nat)
  | historyVertex (kind : HistoryKind) (index : Nat)
  | afterLastStage (kind : HistoryKind) (index : Nat) (stage : Nat)
  | agent (agent agents : Nat)
  | historyCount (given agents : Nat)
  | historyStage (kind : HistoryKind) (index : Nat) (agent stage expected : Nat)
  | cell (row col rows cols : Nat)
  | jointAction (jointAction : Nat) (state : Nat)
  | state (state : Nat)
  | beliefState (state size : Nat)
  | policyElement (domain : PolicyDomain) (index : Nat) (size : Nat)
  | jointPolicyElement (domain : PolicyDomain) (index : Nat) (size : Nat)
  | jointChoice (joint jointAction : Nat)
  | pairCount (actions observations : Nat)
  | realization (index : Nat)
  | belief (index : Nat) (cached : Nat)
  | action (agent : Nat) (action : Nat)
  deriving DecidableEq, Repr

/-- Requests that mean nothing in the current configuration. -/
inductive Meaningless where
  | typeHistories
  | infiniteHorizon
  | noWorkspace (horizon : Horizon)
  | typeCount
  | typeCache
  | typeIndex
  | typeRealization
  | policyKind (kind : HistoryKind)
  | policyDomain (agent : Nat) (given expected : PolicyDomain)
  | refused (note : String)
  deriving DecidableEq, Repr

/-- Models, beliefs, policies and settings that fail validation. Offending numbers are kept as
the text under which they are reported. -/
inductive Unsound where
  | emptyModel (states agents : Nat)
  | initialLength (given states : Nat)
  | cell (probability : String) (row col : Nat)
  | row (row : Nat) (sum : String)
  | initialSum (sum : String)
  | emptyBelief
  | beliefEntry (state : Nat) (probability : String)
  | beliefSum (sum : String)
  | beliefsWithoutHistories
  | emptyHorizon
  | noPolicies
  | policyCount (given agents : Nat)
  | policySize (agent given : Nat) (expected : Nat) (domain : PolicyDomain)
  deriving DecidableEq, Repr

/-- The group to which a fault belongs. -/
inductive Kind where
  | tooLarge
  | missing
  | notHeld
  | inconsistent
  | meaningless
  | unsound
  | unreadable
  | halted
  deriving DecidableEq, Repr

end Fault

/-- Why an operation failed. -/
inductive Fault where
  | tooLarge (excess : Fault.Excess)
  | missing (missing : Fault.Missing)
  | notHeld (kind : HistoryKind) (index : Nat)
  | inconsistent (kind : HistoryKind)
  | meaningless (cause : Fault.Meaningless)
  | unsound (cause : Fault.Unsound)
  | unreadable
  | halted (cause : Fault.Halt)
  deriving DecidableEq, Repr

namespace Fault

def kind : Fault → Kind
  | .tooLarge _ => .tooLarge
  | .missing _ => .missing
  | .notHeld _ _ => .notHeld
  | .inconsistent _ => .inconsistent
  | .meaningless _ => .meaningless
  | .unsound _ => .unsound
  | .unreadable => .unreadable
  | .halted _ => .halted

end Fault

end TeamPlanning
