/-! # Lists in messages -/

set_option autoImplicit false

namespace TeamPlanning.Text

/-- The numbers in brackets, separated by a comma and a blank. -/
def list (numbers : List Nat) : String :=
  "[" ++ ", ".intercalate (numbers.map toString) ++ "]"

example : list [] = "[]" := by decide +kernel
example : list [3, 0, 12] = "[3, 0, 12]" := by decide +kernel

end TeamPlanning.Text
