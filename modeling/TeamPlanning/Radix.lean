import TeamPlanning.Bounded
import TeamPlanning.Machine

/-! # Mixed radix numbers

A word over an alphabet is numbered by reading its symbols as digits, the oldest most significant.
A joint symbol is numbered by reading the agents' own symbols as digits, each in the radix of its
agent, the last agent least significant. Both are the same thing: digits in given radices. -/

set_option autoImplicit false

namespace TeamPlanning.Radix

/-- Divides `number` by the radices from the last to the first: the final quotient, and the
remainders in the order of the radices. -/
def split (radices : List Nat) (number : Nat) : Nat × List Nat :=
  radices.foldr (fun radix (quotient, digits) => (quotient / radix, quotient % radix :: digits))
    (number, [])

/-- One step of reading digits: the number so far is shifted by the radix and the digit added.
A digit outside its radix is the given fault. -/
def push (foreign : Nat → Nat → Fault) (number : Nat) : Nat × Nat → Except Fault Nat
  | (digit, radix) =>
      if digit < radix then do Bounded.add (← Bounded.mul number radix) digit
      else .error (foreign digit radix)

/-- Reads pairs of a digit and its radix from the most significant on. -/
def join (foreign : Nat → Nat → Fault) (digits : List (Nat × Nat)) : Except Fault Nat :=
  digits.foldlM (push foreign) 0

/-- The number of a word over an alphabet of `base` symbols, oldest symbol first. -/
def encode (word : List Nat) (base : Nat) : Except Fault Nat :=
  join (fun digit radix => .missing (.digit digit radix)) (word.map fun digit => (digit, base))

/-- The word of the given length with number `index`; a fault if that needs more symbols. Room for the
word is made before it is known whether there is one, so the machine halts if it is too long. -/
def decode (index length base : Nat) : Except Fault (List Nat) :=
  if base = 0 ∧ 0 < length then .error (.missing .emptyAlphabet)
  else do
    Machine.reserve length
    let (rest, word) := split (List.replicate length base) index
    if rest = 0 then .ok word else .error (.missing (.digits index length base))

/-- The agents' own symbols in a joint symbol, for alphabets of the given sizes. -/
def toIndividual (joint : Nat) (sizes : List Nat) : Except Fault (List Nat) :=
  if 0 ∈ sizes then .error (.missing .emptyAlphabet)
  else
    let (rest, individual) := split sizes joint
    if rest = 0 then .ok individual else .error (.missing (.jointIndex joint sizes))

def toJoint (individual sizes : List Nat) : Except Fault Nat :=
  if individual.length = sizes.length then
    join (fun digit radix => .missing (.individualIndex digit radix)) (individual.zip sizes)
  else .error (.missing (.indexCount individual.length sizes.length))

example : (encode [1, 0, 2] 3).toOption = some 11 ∧ (decode 11 3 3).toOption = some [1, 0, 2] := by
  decide +kernel
example : (toJoint [1, 2] [2, 3]).toOption = some 5 ∧
    (toIndividual 5 [2, 3]).toOption = some [1, 2] := by
  decide +kernel

end TeamPlanning.Radix
