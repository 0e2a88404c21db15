/-! # Planning horizons -/

set_option autoImplicit false

namespace TeamPlanning

/-- How many decisions are planned for. Histories are kept for finite horizons only. -/
inductive Horizon where
  | finite (stages : Nat)
  | infinite
  deriving DecidableEq, Repr

def Horizon.text : Horizon → String
  | .finite h => s!"{h}"
  | .infinite => "inf"

/-- Whether the horizon bounds the number of stages. -/
def Horizon.isFinite : Horizon → Bool
  | .finite _ => true
  | .infinite => false

end TeamPlanning
