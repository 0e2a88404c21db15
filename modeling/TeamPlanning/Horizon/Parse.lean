import TeamPlanning.Fault.Basic
import TeamPlanning.Horizon.Basic
import TeamPlanning.Text.Blank
import TeamPlanning.Word

/-! # Reading horizons

A horizon is written as a positive number in decimal digits, with an optional plus in front, or as
`inf` or `infinite` in any mixture of cases. Blanks around it do not count. No letter beyond ASCII
has one of the letters of these two words as its small form, so case is a matter of ASCII here. -/

set_option autoImplicit false

namespace TeamPlanning

namespace Horizon

/-- Why a text is no horizon. -/
inductive ParseFault where
  | empty
  | invalidDigit
  | tooLarge
  | zero
  deriving DecidableEq, Repr

def ParseFault.message : ParseFault → String
  | .empty => "cannot parse integer from empty string"
  | .invalidDigit => "invalid digit found in string"
  | .tooLarge => "number too large to fit in target type"
  | .zero => "horizon must be positive"

/-- Reads decimal digits behind those that make up `number`. The first character that is no digit,
or that makes the number too large, is the fault. -/
def readDigits : Nat → List Char → Except ParseFault Nat
  | number, [] => .ok number
  | number, c :: rest =>
      if c.isDigit then
        let longer := 10 * number + (c.toNat - '0'.toNat)
        if longer < wordBound then readDigits longer rest else .error .tooLarge
      else .error .invalidDigit

/-- Reads a number: digits, with an optional plus in front. -/
def readNumber : List Char → Except ParseFault Nat
  | [] => .error .empty
  | ['+'] => .error .invalidDigit
  | '+' :: digits => readDigits 0 digits
  | digits => readDigits 0 digits

def parse (text : String) : Except ParseFault Horizon := do
  let word := (Text.trim text.toList).map Char.toLower
  if word = "inf".toList ∨ word = "infinite".toList then return .infinite
  match ← readNumber word with
  | 0 => throw .zero
  | stages => return .finite stages

example : (parse "\t+007 " matches .ok (.finite 7)) := by decide +kernel
example : (parse " Infinite" matches .ok .infinite) := by decide +kernel
example : (parse "18446744073709551616" matches .error .tooLarge) := by decide +kernel
example : (parse "-1" matches .error .invalidDigit) := by decide +kernel
example : (parse " " matches .error .empty) := by decide +kernel
example : (parse "00" matches .error .zero) := by decide +kernel

end Horizon

def Horizon.stages : Horizon → Except Fault Nat
  | .finite stages => .ok stages
  | .infinite => .error (.meaningless .infiniteHorizon)

end TeamPlanning
