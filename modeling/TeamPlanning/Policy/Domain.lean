/-! # Policy domains

What a policy maps from. -/

set_option autoImplicit false

namespace TeamPlanning

/-- The index space over which a policy is defined. The types of a Bayesian game are known by
name only: the game that defines them counts and converts them. -/
inductive PolicyDomain where
  | observationHistory
  | actionObservationHistory
  | type
  deriving DecidableEq, Repr

def PolicyDomain.text : PolicyDomain → String
  | .observationHistory => "OHIST"
  | .actionObservationHistory => "AOHIST"
  | .type => "TYPE"

end TeamPlanning
