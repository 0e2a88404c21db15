/-! # JSON texts

A reader for JSON that keeps what settings need: truth values, keys and the shape of lists and
objects. Numbers are checked and forgotten, and quoted texts are kept as written, since only keys
are ever decoded. -/

set_option autoImplicit false

namespace TeamPlanning

/-- The value of a JSON text. Quoted texts are kept as written between their quotes. -/
inductive Json where
  | null
  | bool (value : Bool)
  | number
  | text (written : List Char)
  | list (items : List Json)
  | object (members : List (List Char × Json))

namespace Json

def skipBlanks (input : List Char) : List Char :=
  input.dropWhile fun c => c == ' ' || c == '\n' || c == '\t' || c == '\r'

def hexDigit? (c : Char) : Option Nat :=
  if '0' ≤ c ∧ c ≤ '9' then some (c.toNat - '0'.toNat)
  else if 'a' ≤ c ∧ c ≤ 'f' then some (c.toNat - 'a'.toNat + 10)
  else if 'A' ≤ c ∧ c ≤ 'F' then some (c.toNat - 'A'.toNat + 10)
  else none

def unit? (a b c d : Char) : Option Nat := do
  return (((← hexDigit? a) * 16 + (← hexDigit? b)) * 16 + (← hexDigit? c)) * 16 + (← hexDigit? d)

def unescape? : Char → Option Char
  | '"' => some '"'
  | '\\' => some '\\'
  | '/' => some '/'
  | 'b' => some '\x08'
  | 'f' => some '\x0c'
  | 'n' => some '\n'
  | 'r' => some '\r'
  | 't' => some '\t'
  | _ => none

/-- Splits off a quoted text whose opening quote has been read: the text as written, and what comes
after the closing quote. Control characters and unknown escapes are refused. -/
def readText : List Char → Option (List Char × List Char)
  | [] => none
  | '"' :: rest => some ([], rest)
  | '\\' :: 'u' :: a :: b :: c :: d :: rest => do
      let _ ← unit? a b c d
      let (written, rest) ← readText rest
      return ('\\' :: 'u' :: a :: b :: c :: d :: written, rest)
  | '\\' :: e :: rest => do
      let _ ← unescape? e
      let (written, rest) ← readText rest
      return ('\\' :: e :: written, rest)
  | c :: rest => do
      if c = '\\' ∨ c.toNat < 0x20 then none
      let (written, rest) ← readText rest
      return (c :: written, rest)

/-- The characters that a quoted text stands for, unless it names half of a surrogate pair alone. -/
def decodeText : List Char → Option (List Char)
  | [] => some []
  | '\\' :: 'u' :: a :: b :: c :: d :: rest => do
      let unit ← unit? a b c d
      if 0xDC00 ≤ unit ∧ unit < 0xE000 then none
      else if 0xD800 ≤ unit ∧ unit < 0xDC00 then
        match rest with
        | '\\' :: 'u' :: e :: f :: g :: h :: rest =>
            let low ← unit? e f g h
            if 0xDC00 ≤ low ∧ low < 0xE000 then
              return Char.ofNat (0x10000 + (unit - 0xD800) * 0x400 + (low - 0xDC00)) ::
                (← decodeText rest)
            else none
        | _ => none
      else return Char.ofNat unit :: (← decodeText rest)
  | '\\' :: e :: rest => do return (← unescape? e) :: (← decodeText rest)
  | c :: rest => do return c :: (← decodeText rest)

def skipDigits : List Char → Option (List Char)
  | [] => none
  | c :: rest => if c.isDigit then some (rest.dropWhile Char.isDigit) else none

/-- Drops a number: an optional minus, digits without a leading zero, and optionally a fraction and
an exponent. -/
def skipNumber (input : List Char) : Option (List Char) := do
  let unsigned := match input with
    | '-' :: rest => rest
    | _ => input
  let fraction ← match unsigned with
    | '0' :: rest => some rest
    | _ => skipDigits unsigned
  let exponent ← match fraction with
    | '.' :: rest => skipDigits rest
    | _ => some fraction
  match exponent with
  | c :: rest =>
      if c = 'e' ∨ c = 'E' then
        match rest with
        | '+' :: digits => skipDigits digits
        | '-' :: digits => skipDigits digits
        | _ => skipDigits rest
      else some exponent
  | [] => some exponent

mutual

/-- Reads a value. The number bounds the calls. -/
def readValue : Nat → List Char → Option (Json × List Char)
  | 0, _ => none
  | calls + 1, input =>
      match skipBlanks input with
      | 'n' :: 'u' :: 'l' :: 'l' :: rest => some (.null, rest)
      | 't' :: 'r' :: 'u' :: 'e' :: rest => some (.bool true, rest)
      | 'f' :: 'a' :: 'l' :: 's' :: 'e' :: rest => some (.bool false, rest)
      | '"' :: rest => do
          let (written, rest) ← readText rest
          return (.text written, rest)
      | '[' :: rest =>
          match skipBlanks rest with
          | ']' :: rest => some (.list [], rest)
          | _ => do
              let (items, rest) ← readItems calls rest
              return (.list items, rest)
      | '\x7b' :: rest =>
          match skipBlanks rest with
          | '\x7d' :: rest => some (.object [], rest)
          | _ => do
              let (members, rest) ← readMembers calls rest
              return (.object members, rest)
      | input => do return (.number, ← skipNumber input)

def readItems : Nat → List Char → Option (List Json × List Char)
  | 0, _ => none
  | calls + 1, input => do
      let (item, rest) ← readValue calls input
      match skipBlanks rest with
      | ',' :: rest => do
          let (items, rest) ← readItems calls rest
          return (item :: items, rest)
      | ']' :: rest => some ([item], rest)
      | _ => none

def readMembers : Nat → List Char → Option (List (List Char × Json) × List Char)
  | 0, _ => none
  | calls + 1, input =>
      match skipBlanks input with
      | '"' :: rest => do
          let (key, rest) ← readText rest
          match skipBlanks rest with
          | ':' :: rest => do
              let (value, rest) ← readValue calls rest
              match skipBlanks rest with
              | ',' :: rest => do
                  let (members, rest) ← readMembers calls rest
                  return ((key, value) :: members, rest)
              | '\x7d' :: rest => some ([(key, value)], rest)
              | _ => none
          | _ => none
      | _ => none

end

/-- Reads a whole text. Lists and objects nest as deep as they like. Every second call reads a
character, so twice the length of the text bounds the calls. -/
def parse? (text : String) : Option Json := do
  let input := text.toList
  let (value, rest) ← readValue (2 * input.length + 2) input
  if skipBlanks rest = [] then some value else none

end Json

end TeamPlanning
