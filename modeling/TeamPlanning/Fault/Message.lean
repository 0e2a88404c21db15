import TeamPlanning.Fault.Basic
import TeamPlanning.Text.List

/-! # The wording of faults

One text for every cause, and the full message: the group of the fault, then its cause. -/

set_option autoImplicit false

namespace TeamPlanning

namespace Wording

def excess : Fault.Excess → String
  | .product a b => s!"{a} * {b}"
  | .sum a b => s!"{a} + {b}"
  | .power a e => s!"{a} ^ {e}"

def noVertex : Fault.NoVertex → String
  | .absent v => s!"no vertex {v}"
  | .fork v => s!"vertex {v} is an intermediate action vertex"
  | .unnumbered v => s!"index of vertex {v} not set"
  | .numbered v held refused => s!"vertex {v} already has index {held}, refusing {refused}"
  | .noSuccessor v letter => s!"vertex {v} has no successor " ++ letter.text
  | .rootHasNoPredecessor => "root has no predecessor"
  | .detachedFork v => s!"fan-out vertex {v} is detached"
  | .rootIsKept => "cannot prune the root"
  | .occupied v key => s!"vertex {v} already has successor {key}"
  | .notFork key v => s!"successor {key} of vertex {v} is not an action fan-out"

def missing : Fault.Missing → String
  | .digit given base => s!"symbol {given} outside alphabet of size {base}"
  | .emptyAlphabet => "empty alphabet"
  | .digits index length base => s!"{index} has more than {length} digits in base {base}"
  | .jointIndex joint sizes => s!"joint index {joint} outside " ++ Text.list sizes
  | .indexCount given agents => s!"{given} indices for {agents} agents"
  | .individualIndex index size => s!"index {index} outside alphabet of size {size}"
  | @Fault.Missing.symbol c foreign ⟨actions, observations⟩ =>
      c.text ++ " symbol " ++ foreign.text ++
        s!" outside {actions} actions x {observations} observations"
  | .stage stage horizon => s!"stage {stage} beyond horizon {horizon}"
  | .historyIndex index total => s!"history index {index} beyond {total} histories"
  | .vertex cause => noVertex cause
  | .history kind index total =>
      "no " ++ kind.text ++ s!" history {index} among {total}"
  | .historyVertex kind index => "no " ++ kind.text ++ s!" history {index}"
  | .afterLastStage kind index stage =>
      kind.text ++ s!" history {index} is at the last stage {stage}"
  | .agent agent agents => s!"agent {agent} of {agents}"
  | .historyCount given agents => s!"{given} history indices for {agents} agents"
  | .historyStage kind index agent stage expected =>
      kind.text ++ s!" history {index} of agent {agent} has stage {stage}, expected {expected}"
  | .cell r c rows cols => s!"cell ({r}, {c}) outside {rows}x{cols} table"
  | .jointAction jointAction state => s!"joint action {jointAction} in state {state}"
  | .state state => s!"state {state}"
  | .beliefState state size => s!"state {state} of {size}"
  | .policyElement domain index size => domain.text ++ s!" element {index} of {size}"
  | .jointPolicyElement domain index size =>
      "joint " ++ domain.text ++ s!" element {index} of {size}"
  | .jointChoice joint jointAction => s!"no entry {joint} {jointAction}"
  | .pairCount actions observations => s!"{actions} actions against {observations} observations"
  | .realization index => s!"joint action-observation history {index}"
  | .belief index cached => s!"joint action-observation history {index} of {cached}"
  | .action agent action => s!"agent {agent} has no action {action}"

def meaningless : Fault.Meaningless → String
  | .typeHistories => "type domains have no history category"
  | .infiniteHorizon => "history indices are undefined for an infinite horizon"
  | .noWorkspace horizon => "no history bookkeeping for horizon " ++ horizon.text
  | .typeCount => "type domains are counted by the Bayesian game that defines them"
  | .typeCache => "type domains have no joint history cache"
  | .typeIndex => "type domains have no joint history index"
  | .typeRealization => "realization probabilities need a history-indexed policy"
  | .policyKind kind => "no policies over " ++ kind.text ++ " histories"
  | .policyDomain agent given expected =>
      s!"agent {agent} policy over " ++ given.text ++ " where " ++ expected.text ++ " is expected"
  | .refused note => note

def unsound : Fault.Unsound → String
  | .emptyModel states agents => s!"{states} states and {agents} agents"
  | .initialLength given states => s!"initial distribution over {given} of {states} states"
  | .cell probability r c => s!"probability {probability} at ({r}, {c})"
  | .row number sum => s!"row {number} sums to {sum}"
  | .initialSum sum => s!"initial distribution sums to {sum}"
  | .emptyBelief => "belief over no states"
  | .beliefEntry state probability => s!"belief entry {state} is {probability}"
  | .beliefSum sum => s!"belief sums to {sum}"
  | .beliefsWithoutHistories =>
      "caching joint beliefs needs eager joint action-observation histories"
  | .emptyHorizon => "horizon must be positive"
  | .noPolicies => "joint policy of no agents"
  | .policyCount given agents => s!"{given} policies for {agents} agents"
  | .policySize agent given expected domain =>
      s!"agent {agent} policy covers {given} of {expected} " ++ domain.text ++ " elements"

def halt : Fault.Halt → String
  | .product => "attempt to multiply with overflow"
  | .sum => "attempt to add with overflow"
  | .capacity => "capacity overflow"

end Wording

/-- The full wording of a fault: its group, then its cause. -/
def Fault.message : Fault → String
  | .tooLarge excess => "overflow: " ++ Wording.excess excess
  | .missing cause => "invalid index: " ++ Wording.missing cause
  | .notHeld kind index =>
      "not cached: " ++ kind.text ++ s!" history {index} is not materialized"
  | .inconsistent kind =>
      "inconsistent: " ++ kind.text ++
        " histories: breadth-first tally differs from closed form"
  | .meaningless cause => "domain error: " ++ Wording.meaningless cause
  | .unsound cause => "sanity check failed: " ++ Wording.unsound cause
  | .unreadable => "parse error"
  | .halted cause => "halted: " ++ Wording.halt cause

end TeamPlanning
