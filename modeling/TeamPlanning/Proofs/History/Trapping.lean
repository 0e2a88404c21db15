import TeamPlanning.History.Team
import TeamPlanning.Proofs.Planner.Queries

/-! # Histories with trapping arithmetic

Most arithmetic on histories is done without a check, relying on what was checked when a space was
built. Here the same questions are asked of a machine that stops where an unchecked operation leaves
the range of words, where it divides by zero, and where an array is made beyond its capacity. Checked
operations are the same on both. -/

set_option autoImplicit false

namespace TeamPlanning

/-- A computation that has an outcome unless the machine stops. -/
abbrev Trapping (α : Type) := ExceptT Fault Option α

namespace Trapping

/-- The result of an operation, where it is one; otherwise the machine stops. -/
def guarded (isDefined : Prop) [Decidable isDefined] (result : Nat) : Trapping Nat :=
  if isDefined then pure result else ExceptT.mk none

def add (a b : Nat) : Trapping Nat := guarded (a + b < wordBound) (a + b)

def mul (a b : Nat) : Trapping Nat := guarded (a * b < wordBound) (a * b)

def sub (a b : Nat) : Trapping Nat := guarded (b ≤ a ∧ a - b < wordBound) (a - b)

def div (a b : Nat) : Trapping Nat := guarded (b ≠ 0) (a / b)

def mod (a b : Nat) : Trapping Nat := guarded (b ≠ 0) (a % b)

/-- Room for an array of words. -/
def reserve (entries : Nat) : Trapping Unit :=
  if entries < capacity then pure () else ExceptT.mk none

variable {α β : Type}

/-- The machine does not stop, and the outcome is the given one. -/
def Gives (trapping : Trapping α) (outcome : Except Fault α) : Prop := trapping.run = some outcome

theorem Gives.run_eq {trapping : Trapping α} {outcome : Except Fault α}
    (gives : Gives trapping outcome) : trapping.run = some outcome := gives

theorem gives_pure (value : α) : Gives (pure value) (.ok value) := rfl

theorem gives_throw (fault : Fault) : Gives (throw fault : Trapping α) (.error fault) := rfl

theorem gives_lift (outcome : Except Fault α) : Gives (liftM outcome) outcome := rfl

theorem Gives.bind {trapping : Trapping α} {outcome : Except Fault α} {next : α → Trapping β}
    {next' : α → Except Fault β} (first : Gives trapping outcome)
    (second : ∀ value, outcome = .ok value → Gives (next value) (next' value)) :
    Gives (trapping >>= next) (outcome >>= next') := by
  have started : (trapping >>= next).run = trapping.run >>= ExceptT.bindCont next := rfl
  rw [Gives, started, first.run_eq]
  cases outcome with
  | error fault => rfl
  | ok value => exact second value rfl

/-- The first step has a value that the machine without traps computes in place. -/
theorem Gives.value_bind {trapping : Trapping α} {value : α} {next : α → Trapping β}
    {outcome : Except Fault β} (first : Gives trapping (.ok value))
    (second : Gives (next value) outcome) : Gives (trapping >>= next) outcome := by
  have whole : Gives (trapping >>= next) (Except.ok value >>= fun _ => outcome) :=
    first.bind fun found same => by
      cases same
      exact second
  exact whole

theorem Gives.mapM {visit : α → Trapping β} {visit' : α → Except Fault β} {items : List α}
    (each : ∀ item ∈ items, Gives (visit item) (visit' item)) :
    Gives (items.mapM visit) (items.mapM visit') := by
  induction items with
  | nil => exact gives_pure []
  | cons item items ih =>
      rw [List.mapM_cons, List.mapM_cons]
      refine (each item List.mem_cons_self).bind fun result _ => ?_
      refine (ih fun other member => each other (List.mem_cons_of_mem item member)).bind ?_
      exact fun results _ => gives_pure (result :: results)

theorem gives_guarded {isDefined : Prop} [Decidable isDefined] (holds : isDefined) (result : Nat) :
    Gives (guarded isDefined result) (.ok result) := by
  rw [guarded, if_pos holds]
  exact gives_pure result

theorem gives_add {a b : Nat} (fits : a + b < wordBound) : Gives (add a b) (.ok (Word.add a b)) := by
  rw [Word.add_of_lt fits]
  exact gives_guarded fits _

theorem gives_mul {a b : Nat} (fits : a * b < wordBound) : Gives (mul a b) (.ok (Word.mul a b)) := by
  rw [Word.mul_of_lt fits]
  exact gives_guarded fits _

theorem gives_sub {a b : Nat} (small : a < wordBound) (ordered : b ≤ a) :
    Gives (sub a b) (.ok (Word.sub a b)) := by
  rw [Word.sub_of_le small ordered]
  exact gives_guarded ⟨ordered, Nat.lt_of_le_of_lt (Nat.sub_le a b) small⟩ _

theorem gives_div (a : Nat) {b : Nat} (positive : 0 < b) : Gives (div a b) (.ok (a / b)) :=
  gives_guarded (Nat.ne_of_gt positive) _

theorem gives_mod (a : Nat) {b : Nat} (positive : 0 < b) : Gives (mod a b) (.ok (a % b)) :=
  gives_guarded (Nat.ne_of_gt positive) _

theorem gives_reserve {entries : Nat} (stored : entries < capacity) :
    Gives (reserve entries) (.ok ()) := by
  rw [reserve, if_pos stored]
  exact gives_pure ()

/-- The machine does not stop; the outcome is the given one, and neither a result that is too large nor
a halt. -/
structure Safe (trapping : Trapping α) (outcome : Except Fault α) : Prop where
  gives : Gives trapping outcome
  small : NeverExceeds outcome

theorem safe_pure (value : α) : Safe (pure value) (.ok value) :=
  ⟨gives_pure value, neverExceeds_of_eq_ok rfl⟩

theorem safe_missing (cause : Fault.Missing) :
    Safe (throw (.missing cause) : Trapping α) (.error (.missing cause)) :=
  ⟨gives_throw _, neverExceeds_missing cause⟩

theorem safe_lift {outcome : Except Fault α} (small : NeverExceeds outcome) :
    Safe (liftM outcome) outcome := ⟨gives_lift outcome, small⟩

theorem Safe.bind {trapping : Trapping α} {outcome : Except Fault α} {next : α → Trapping β}
    {next' : α → Except Fault β} (first : Safe trapping outcome)
    (second : ∀ value, outcome = .ok value → Safe (next value) (next' value)) :
    Safe (trapping >>= next) (outcome >>= next') :=
  ⟨first.gives.bind fun value answered => (second value answered).gives,
    first.small.bind fun value answered => (second value answered).small⟩

theorem Safe.mapM {visit : α → Trapping β} {visit' : α → Except Fault β} {items : List α}
    (each : ∀ item ∈ items, Safe (visit item) (visit' item)) :
    Safe (items.mapM visit) (items.mapM visit') :=
  ⟨.mapM fun item member => (each item member).gives,
    .mapM fun item member => (each item member).small⟩

end Trapping

/-! ## Digits -/

namespace Radix.Trapping

def split (radices : List Nat) (number : Nat) : Trapping (Nat × List Nat) :=
  match radices with
  | [] => return (number, [])
  | radix :: radices => do
      let (quotient, digits) ← split radices number
      let digit ← Trapping.mod quotient radix
      return (← Trapping.div quotient radix, digit :: digits)

def decode (index length base : Nat) : Trapping (List Nat) := do
  if base = 0 ∧ 0 < length then throw (.missing .emptyAlphabet)
  else
    Trapping.reserve length
    let (rest, word) ← split (List.replicate length base) index
    if rest = 0 then return word else throw (.missing (.digits index length base))

def toIndividual (joint : Nat) (sizes : List Nat) : Trapping (List Nat) := do
  if 0 ∈ sizes then throw (.missing .emptyAlphabet)
  else
    let (rest, individual) ← split sizes joint
    if rest = 0 then return individual else throw (.missing (.jointIndex joint sizes))

end Radix.Trapping

namespace Symbol.Trapping

def digit : {c : HistoryKind} → Symbol c → Alphabet → Trapping Nat
  | _, .observation o, _ => return o
  | _, .action a, _ => return a
  | _, .actionObservation a o, alphabet => do
      Trapping.add (← Trapping.mul a alphabet.observations) o

def ofDigit : (c : HistoryKind) → Nat → Alphabet → Trapping (Symbol c)
  | .observation, digit, _ => return .observation digit
  | .action, digit, _ => return .action digit
  | .actionObservation, digit, alphabet => do
      return .actionObservation (← Trapping.div digit alphabet.observations)
        (← Trapping.mod digit alphabet.observations)

def validDigit {c : HistoryKind} (symbol : Symbol c) (alphabet : Alphabet) : Trapping Nat :=
  if symbol.within alphabet then digit symbol alphabet
  else throw (.missing (.symbol symbol alphabet))

def parts : {c : HistoryKind} → Symbol c → List Alphabet → Trapping (List (Symbol c))
  | _, .observation o, agents => do
      let parts ← Radix.Trapping.toIndividual o (agents.map (·.observations))
      return parts.map .observation
  | _, .action a, agents => do
      let parts ← Radix.Trapping.toIndividual a (agents.map (·.actions))
      return parts.map .action
  | _, .actionObservation a o, agents => do
      let actions ← Radix.Trapping.toIndividual a (agents.map (·.actions))
      let observations ← Radix.Trapping.toIndividual o (agents.map (·.observations))
      return List.zipWith .actionObservation actions observations

end Symbol.Trapping

/-! ## Stages -/

namespace StageLayout.Trapping

def total (layout : StageLayout) : Trapping Nat :=
  match layout.starts.back?, layout.sizes.back? with
  | some start, some size => Trapping.add start size
  | _, _ => return 0

def stageOf (layout : StageLayout) (index : Nat) : Trapping Nat := do
  let total ← total layout
  if index < total then
    Trapping.sub (boundary (fun t => (layout.starts[t]?).any (· ≤ index)) layout.starts.size) 1
  else throw (.missing (.historyIndex index total))

end StageLayout.Trapping

/-! ## Histories -/

namespace Trie.Trapping

variable {α : Type}

def getOrInsert (trie : Trie α) (v : Nat) (letter : Letter) (make : α → Trapping (α × Nat)) :
    Trapping (Nat × Trie α) :=
  match trie.successor v letter with
  | .ok child => return (child, trie)
  | .error _ => do
      let (value, index) ← make (← trie.value v)
      let (child, trie) ← trie.insert v letter value
      return (child, ← trie.assign child index)

end Trie.Trapping

namespace HistorySpace.Trapping

variable {c : HistoryKind} {ν α : Type}

def total (space : HistorySpace c ν) : Trapping Nat := StageLayout.Trapping.total space.layout

def record (space : HistorySpace c ν) (index : Nat) : Trapping (Record c ν) :=
  match space.records.get? index with
  | some record => return record
  | none => do
      let total ← total space
      if space.eager || total ≤ index then throw (.missing (.history c index total))
      else throw (.notHeld c index)

def stageOf (space : HistorySpace c ν) (index : Nat) : Trapping Nat :=
  if space.eager then do return (← record space index).history.length
  else StageLayout.Trapping.stageOf space.layout index

def successorNumber (space : HistorySpace c ν) (index stage digit : Nat) : Trapping Nat := do
  let here ← space.layout.startAt stage
  let next ← space.layout.startAt (← Trapping.add stage 1)
  let shifted ← Bounded.mul (← Trapping.sub index here) space.base
  let extended ← Bounded.add shifted digit
  Bounded.add extended next

def wordOf (space : HistorySpace c ν) (index : Nat) : Trapping (List (Symbol c)) := do
  let stage ← StageLayout.Trapping.stageOf space.layout index
  let start ← space.layout.startAt stage
  let digits ← Radix.Trapping.decode (← Trapping.sub index start) stage space.base
  digits.mapM (Symbol.Trapping.ofDigit c · space.alphabet)

def successor (space : HistorySpace c ν) (index : Nat) (symbol : Symbol c) : Trapping Nat := do
  let digit ← Symbol.Trapping.validDigit symbol space.alphabet
  let stage ← stageOf space index
  if space.layout.stages ≤ (← Trapping.add stage 1) then
    throw (.missing (.afterLastStage c index stage))
  if space.eager then
    match space.records.vertex? index with
    | some v => do
        let child ← space.trie.successor v symbol.letter
        space.trie.index child
    | none => throw (.missing (.historyVertex c index))
  else successorNumber space index stage digit

def walkBack (space : HistorySpace c ν) : Nat → Record c ν → Trapping (List (Symbol c))
  | 0, _ => return []
  | steps + 1, extended =>
      match extended.history with
      | .empty => return []
      | .extension predecessor last _ => do
          let earlier ← walkBack space steps (← record space predecessor)
          return last :: earlier

def symbols (space : HistorySpace c ν) (index : Nat) : Trapping (List (Symbol c)) :=
  if space.eager then do
    let record ← record space index
    return (← walkBack space record.history.length record).reverse
  else wordOf space index

def indexOf (space : HistorySpace c ν) (symbols : List (Symbol c)) : Trapping Nat := do
  let digits ← symbols.mapM (Symbol.Trapping.validDigit · space.alphabet)
  if space.eager then
    let v ← space.descendFrom Trie.root symbols
    space.trie.index v
  else
    let start ← space.layout.startAt symbols.length
    let number ← Radix.encode digits space.base
    Bounded.add start number

/-- The record of an extension, which is one symbol longer. -/
def extend (record : Record c ν) (index : Nat) (symbol : Symbol c) (note : ν) :
    Trapping (Record c ν) := do
  let _ ← Trapping.add record.history.length 1
  return record.extend index symbol note

/-- One step along a word from vertex `v`: the number of the next history, and its vertex, which is
made if there is none yet. -/
def descend (noteOf : ν → Nat → Symbol c → Trapping ν) (symbol : Symbol c) (stage current v : Nat)
    (space : HistorySpace c ν) : Trapping (Nat × Nat × Trie (Record c ν)) := do
  let digit ← Symbol.Trapping.digit symbol space.alphabet
  let next ← successorNumber space current stage digit
  let (child, trie) ← Trie.Trapping.getOrInsert space.trie v symbol.letter fun record => do
    let note ← noteOf record.note current symbol
    return (← extend record current symbol note, next)
  return (next, child, trie)

def holdAlong (noteOf : ν → Nat → Symbol c → Trapping ν) :
    List (Symbol c) → (stage current v : Nat) → HistorySpace c ν →
    Option (Except Fault Unit × HistorySpace c ν)
  | [], _, _, _, space => some (.ok (), space)
  | symbol :: symbols, stage, current, v, space => do
      match ← (descend noteOf symbol stage current v space).run with
      | .error fault => return (.error fault, space)
      | .ok (next, child, trie) =>
          let records := { space.records with trie }.remember next child
          holdAlong noteOf symbols (stage + 1) next child { space with records }

def hold (space : HistorySpace c ν) (index : Nat) (noteOf : ν → Nat → Symbol c → Trapping ν) :
    Option (Except Fault (Record c ν) × HistorySpace c ν) := do
  if (space.records.get? index).isSome then return (← (record space index).run, space)
  else
    match ← (wordOf space index).run with
    | .error fault => return (.error fault, space)
    | .ok symbols =>
        match ← holdAlong noteOf symbols 0 0 Trie.root space with
        | (.error fault, longer) => return (.error fault, longer)
        | (.ok (), longer) => return (← (record longer index).run, longer)

def answer (space : HistorySpace c ν) : HistoryQuery c α → Trapping α
  | .count => total space
  | .countAt stage => space.layout.sizeAt stage
  | .firstAt stage => space.layout.startAt stage
  | .stageOf index => stageOf space index
  | .successor index symbol => successor space index symbol
  | .symbols index => symbols space index
  | .indexOf word => indexOf space word

end HistorySpace.Trapping

/-! ## Teams -/

namespace TeamSpace.Trapping

variable {c : HistoryKind} {α : Type}

def extendIndividual (agents : List (HistorySpace c Unit)) (alphabets : List Alphabet)
    (individual : List Nat) (symbol : Symbol c) : Trapping (List Nat) := do
  let parts ← Symbol.Trapping.parts symbol alphabets
  ((agents.zip individual).zip parts).mapM fun ((agent, index), part) =>
    HistorySpace.Trapping.successor agent index part

/-- The numbers of the agents' own histories in a joint history whose record is not held. -/
def spell (space : TeamSpace c) (index : Nat) : Trapping (List Nat) := do
  let symbols ← HistorySpace.Trapping.symbols space.team index
  let parts ← symbols.mapM (Symbol.Trapping.parts · space.alphabets)
  space.agents.zipIdx.mapM fun (histories, agent) =>
    HistorySpace.Trapping.indexOf histories (parts.filterMap (·[agent]?))

def toIndividual (space : TeamSpace c) (index : Nat) : Trapping (List Nat) :=
  ExceptT.mk do
    match ← (HistorySpace.Trapping.record space.team index).run with
    | .ok record => return .ok record.note
    | .error (.notHeld _ _) => (spell space index).run
    | .error fault => return .error fault

def symbolsAt (histories : HistorySpace c Unit) (agent index stage : Nat) :
    Trapping (List (Symbol c)) := do
  let symbols ← HistorySpace.Trapping.symbols histories index
  if symbols.length = stage then return symbols
  else throw (.missing (.historyStage c index agent symbols.length stage))

def toJoint (space : TeamSpace c) (stage : Nat) (individual : List Nat) : Trapping Nat := do
  if individual.length ≠ space.agents.length then
    throw (.missing (.historyCount individual.length space.agents.length))
  let words ← (space.agents.zip individual).zipIdx.mapM fun ((histories, index), agent) =>
    symbolsAt histories agent index stage
  let joint ← (List.range stage).mapM fun t =>
    (Symbol.ofParts (words.filterMap (·[t]?)) space.alphabets : Except Fault (Symbol c))
  HistorySpace.Trapping.indexOf space.team joint

def hold (space : TeamSpace c) (index : Nat) :
    Option (Except Fault (JointHistory c) × TeamSpace c) := do
  let (outcome, team) ← HistorySpace.Trapping.hold space.team index fun individual _ symbol =>
    extendIndividual space.agents space.alphabets individual symbol
  return (outcome, { space with team })

def answer (space : TeamSpace c) : TeamQuery c α → Trapping α
  | .own agent query => do
      let histories ← space.agent agent
      HistorySpace.Trapping.answer histories query
  | .joint query => HistorySpace.Trapping.answer space.team query
  | .toIndividual index => toIndividual space index
  | .toJoint stage individual => toJoint space stage individual

end TeamSpace.Trapping

end TeamPlanning
