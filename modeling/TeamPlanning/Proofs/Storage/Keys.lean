import TeamPlanning.Model.Random
import TeamPlanning.Proofs.Storage.Cells
import TeamPlanning.Proofs.Storage.Model

/-! # Models as maps

Transitions, observations and observations by event are three maps: what a model answers under a key
is what was written last under that very key. The tables number their rows in a way that no two keys
share a cell, and that no number exceeds a machine word. -/

set_option autoImplicit false

namespace TeamPlanning.Model

/-- What a probability is asked and written under. -/
inductive Key where
  | transition (state jointAction next : Nat)
  | observation (jointAction next jointObservation : Nat)
  | event (state jointAction next jointObservation : Nat)
  deriving DecidableEq, Repr

variable {W : Type}

def Key.Within (model : Model W) : Key → Prop
  | .transition state jointAction next =>
      state < model.states ∧ jointAction < model.jointActions ∧ next < model.states
  | .observation jointAction next jointObservation =>
      jointAction < model.jointActions ∧ next < model.states ∧
        jointObservation < model.jointObservations
  | .event state jointAction next jointObservation =>
      (state < model.states ∧ jointAction < model.jointActions ∧ next < model.states) ∧
        jointObservation < model.jointObservations

/-- What a write puts under a key; it puts something under one key at most. -/
def Write.under? : Write W → Key → Option W
  | .transition state jointAction next p, key =>
      if .transition state jointAction next = key then some p else none
  | .observation jointAction next jointObservation p, key =>
      if .observation jointAction next jointObservation = key then some p else none
  | .event state jointAction next jointObservation p, key =>
      if .event state jointAction next jointObservation = key then some p else none
  | .initial _, _ => none

def Write.isEvent : Write W → Bool
  | .event _ _ _ _ _ => true
  | _ => false

/-- What was put under a key by the last of the writes that put anything there. -/
def written? (key : Key) : List (Write W) → Option W
  | [] => none
  | write :: writes => (written? key writes).or (write.under? key)

theorem finds_row {model : Model W} (small : model.jointActions * model.states < wordBound) :
    ProbabilityTable.Finds (model.jointActions * model.states)
      fun key : Nat × Nat => model.row key.1 key.2 := by
  constructor
  case below => exact row_lt small
  case injective =>
    intro key key' row found found'
    obtain ⟨⟨_, inside⟩, rfl⟩ := (row_eq_ok_iff small).mp found
    obtain ⟨⟨_, inside'⟩, same⟩ := (row_eq_ok_iff small).mp found'
    obtain ⟨first, second⟩ := ProbabilityTable.place_injective inside inside' same
    exact Prod.ext first second

theorem Countable.finds_eventRow {model : Model W} (inhabited : 0 < model.states)
    (countable : model.Countable) :
    ProbabilityTable.Finds (model.states * model.jointActions * model.states)
      fun key : Nat × Nat × Nat => model.eventRow key.1 key.2.1 key.2.2 := by
  constructor
  case below => exact countable.eventRow_lt inhabited
  case injective =>
    intro key key' row found found'
    obtain ⟨⟨_, known, arrived⟩, rfl⟩ := (countable.eventRow_eq_ok_iff inhabited).mp found
    obtain ⟨⟨_, known', arrived'⟩, same⟩ := (countable.eventRow_eq_ok_iff inhabited).mp found'
    rw [Nat.mul_assoc, Nat.mul_assoc] at same
    -- The later coordinates number the rows of one state left behind.
    obtain ⟨first, later⟩ := ProbabilityTable.place_injective (mul_add_lt known arrived)
      (mul_add_lt known' arrived') same
    obtain ⟨second, third⟩ := ProbabilityTable.place_injective arrived arrived' later
    exact Prod.ext first (Prod.ext second third)

variable [Weight W]

/-- What the model answers under a key. The map of events is blank before it is in use. -/
def held (model : Model W) : Key → W
  | .transition state jointAction next => model.transition state jointAction next
  | .observation jointAction next jointObservation =>
      model.observation jointAction next jointObservation
  | .event state jointAction next jointObservation =>
      if model.isEventDriven then model.eventObservation state jointAction next jointObservation
      else Weight.zero

theorem held_event_of_absent {model : Model W} (absent : model.events = none)
    (state jointAction next jointObservation : Nat) :
    model.held (.event state jointAction next jointObservation) = Weight.zero := by
  simp [held, isEventDriven, absent]

theorem held_event_of_present {model : Model W} {events : ProbabilityTable W}
    (present : model.events = some events) (state jointAction next jointObservation : Nat) :
    model.held (.event state jointAction next jointObservation) =
      events.look (model.eventRow state jointAction next) jointObservation := by
  simp only [held, isEventDriven, eventObservation, present, Option.isSome_some, ↓reduceIte]
  rfl

/-- The model was created blank or at random with the given storage, and written since, whether or
not the writes succeeded. -/
inductive Made (storage : Storage) : Model W → Prop where
  | created {states : Nat} {alphabets : List Alphabet} {model : Model W}
      (created : create states alphabets storage = .ok model) : Made storage model
  | drawn {states : Nat} {alphabets : List Alphabet} {draws : Nat → Nat} {model : Model W}
      (drawn : random states alphabets storage draws = .ok model) : Made storage model
  | written {model : Model W} (write : Write W) (made : Made storage model) :
      Made storage (model.write write).2

/-! ## Tables that fit the numbers -/

/-- The tables have the rows and columns that the numbers of the model ask for. -/
structure Framed (storage : Storage) (model : Model W) : Prop where
  inhabited : 0 < model.states
  small : model.jointActions * model.states < wordBound
  transitions :
    model.transitions.Framed (model.jointActions * model.states) model.states storage
  observations :
    model.observations.Framed (model.jointActions * model.states) model.jointObservations storage
  events : ∀ events, model.events = some events → model.Countable ∧
    events.Framed (model.states * model.jointActions * model.states) model.jointObservations storage

theorem framed_of_create {states : Nat} {alphabets : List Alphabet} {storage : Storage}
    {model : Model W} (created : create states alphabets storage = .ok model) :
    model.Framed storage := by
  obtain ⟨inhabited, _, _, _, _, small, first, second, rfl⟩ := create_eq_ok created
  constructor
  case inhabited => exact inhabited
  case small => exact small
  case transitions => exact ProbabilityTable.framed_of_create first
  case observations => exact ProbabilityTable.framed_of_create second
  case events => intro events present; cases present

theorem fillRow_framed {table table' : ProbabilityTable W} {storage : Storage} {rows cols row : Nat}
    {distribution : List W} (framed : table.Framed rows cols storage)
    (filled : fillRow table row distribution = .ok table') : table'.Framed rows cols storage :=
  foldlM_keeps (ProbabilityTable.Framed rows cols storage)
    (fun _ _ _ framed written => (framed.set_eq_ok written).2.1) framed filled

theorem framed_of_random {states : Nat} {alphabets : List Alphabet} {storage : Storage}
    {draws : Nat → Nat} {model : Model W}
    (drawn : random states alphabets storage draws = .ok model) : model.Framed storage := by
  obtain ⟨blank, created, drawn⟩ := bind_eq_ok_iff.mp drawn
  obtain ⟨filled, folded, drawn⟩ := bind_eq_ok_iff.mp drawn
  cases drawn
  have framed : filled.Framed storage := by
    apply foldlM_keeps (Framed storage) ?_ (framed_of_create created) folded
    intro model row next framed written
    obtain ⟨transitions, first, written⟩ := bind_eq_ok_iff.mp written
    obtain ⟨observations, second, written⟩ := bind_eq_ok_iff.mp written
    cases written
    exact { framed with
      transitions := fillRow_framed framed.transitions first
      observations := fillRow_framed framed.observations second }
  exact { framed with }

namespace Framed

variable {storage : Storage} {model next : Model W} (framed : model.Framed storage)
include framed

/-- Before there is a table of events, a blank one is opened: no answer tells the difference. -/
theorem opens {state jointAction arrived row : Nat} {events : ProbabilityTable W}
    (opened : model.openEvents state jointAction arrived = .ok (events, row)) :
    events.Framed (model.states * model.jointActions * model.states) model.jointObservations
        storage ∧
      ∀ state jointAction next jointObservation,
        events.look (model.eventRow state jointAction next) jointObservation =
          model.held (.event state jointAction next jointObservation) := by
  obtain ⟨_, _, _, present | ⟨absent, created⟩⟩ := openEvents_eq_ok opened
  · refine ⟨(framed.events _ present).2, fun state jointAction next jointObservation => ?_⟩
    exact (held_event_of_present present state jointAction next jointObservation).symm
  · have stored : model.storage = storage := framed.transitions.storage_eq
    rw [stored] at created
    refine ⟨ProbabilityTable.framed_of_create created,
      fun state jointAction next jointObservation => ?_⟩
    rw [held_event_of_absent absent, ProbabilityTable.look_of_create created]

end Framed

theorem Framed.held_beyond {storage : Storage} {model : Model W} (framed : model.Framed storage)
    {key : Key} (beyond : ¬ key.Within model) : model.held key = Weight.zero := by
  cases key with
  | transition state jointAction next =>
      change model.transitions.look (model.row jointAction state) next = Weight.zero
      cases found : model.row jointAction state with
      | error => rfl
      | ok row =>
          obtain ⟨⟨known, inside⟩, _⟩ := (row_eq_ok_iff framed.small).mp found
          apply framed.transitions.look_beyond
          exact Nat.le_of_not_lt fun within => beyond ⟨inside, known, within⟩
  | observation jointAction next jointObservation =>
      change model.observations.look (model.row jointAction next) jointObservation = Weight.zero
      cases found : model.row jointAction next with
      | error => rfl
      | ok row =>
          obtain ⟨⟨known, arrived⟩, _⟩ := (row_eq_ok_iff framed.small).mp found
          apply framed.observations.look_beyond
          exact Nat.le_of_not_lt fun within => beyond ⟨known, arrived, within⟩
  | event state jointAction next jointObservation =>
      cases present : model.events with
      | none => exact held_event_of_absent present _ _ _ _
      | some events =>
          obtain ⟨_, tables⟩ := framed.events events present
          rw [held_event_of_present present]
          cases found : model.eventRow state jointAction next with
          | error => rfl
          | ok row =>
              apply tables.look_beyond
              exact Nat.le_of_not_lt fun within => beyond ⟨eventRow_isOk_iff.mp ⟨row, found⟩, within⟩

theorem within_write (model : Model W) (write : Write W) (key : Key) :
    key.Within (model.write write).2 ↔ key.Within model := by
  obtain ⟨states, jointActions, jointObservations⟩ := write_numbers model write
  cases key <;> simp only [Key.Within, states, jointActions, jointObservations]

theorem within_writeAll (model : Model W) (writes : List (Write W)) (key : Key) :
    key.Within (model.writeAll writes).2 ↔ key.Within model := by
  induction writes generalizing model with
  | nil => exact Iff.rfl
  | cons write writes ih => exact (ih _).trans (within_write model write key)

/-! ## One write -/

/-- All that a successful write does. -/
structure Puts (storage : Storage) (model : Model W) (write : Write W) (next : Model W) : Prop where
  framed : next.Framed storage
  within : ∀ key p, write.under? key = some p → key.Within model
  held : ∀ key, next.held key = ((write.under? key).map storage.keep).getD (model.held key)
  isEventDriven : next.isEventDriven = (model.isEventDriven || write.isEvent)

omit [Weight W] in
theorem settle_eq_ok {model : Model W} {outcome : Except Fault (Model W)}
    (success : (model.settle outcome).1 = .ok ()) : outcome = .ok (model.settle outcome).2 := by
  cases outcome with
  | ok next => rfl
  | error fault => cases success

omit [Weight W] in
theorem settle_eq_error {model : Model W} {outcome : Except Fault (Model W)} {fault : Fault}
    (refused : (model.settle outcome).1 = .error fault) : model = (model.settle outcome).2 := by
  cases outcome with
  | ok next => cases refused
  | error fault => rfl

theorem getD_put {storage : Storage} {p other : W} {written found : Prop} [Decidable written]
    [Decidable found] (same : found ↔ written) :
    (if found then storage.keep p else other) =
      ((if written then some p else none).map storage.keep).getD other := by
  by_cases here : found
  · rw [if_pos here, if_pos (same.mp here)]
    rfl
  · rw [if_neg here, if_neg fun given => here (same.mpr given)]
    rfl

omit [Weight W] in
/-- A write puts something under its own key alone. -/
theorem within_of_put {model : Model W} {own key : Key} {p q : W} (inside : own.Within model)
    (put : (if own = key then some p else none) = some q) : key.Within model := by
  split at put
  · rename_i same
    exact same ▸ inside
  · cases put

namespace Framed

variable {storage : Storage} {model next : Model W} (framed : model.Framed storage)
  {state jointAction arrived jointObservation : Nat} {p : W}
include framed

theorem puts_transition (written : model.writeTransition state jointAction arrived p = .ok next) :
    Puts storage model (.transition state jointAction arrived p) next := by
  obtain ⟨row, found, written⟩ := bind_eq_ok_iff.mp written
  obtain ⟨table, set, written⟩ := bind_eq_ok_iff.mp written
  cases written
  obtain ⟨known, framed', _⟩ := framed.transitions.set_eq_ok set
  obtain ⟨inside, _⟩ := (row_eq_ok_iff framed.small).mp found
  constructor
  case framed => exact { framed with transitions := framed' }
  case isEventDriven => exact (Bool.or_false _).symm
  case within =>
    intro key q put
    apply within_of_put ?_ put
    exact ⟨inside.2, inside.1, known.2⟩
  case held =>
    intro key
    cases key with
    | observation => rfl
    | event => rfl
    | transition state' jointAction' arrived' =>
        apply (framed.transitions.look_set (finds_row framed.small) (jointAction, state) found set
          (jointAction', state') arrived').trans
        apply getD_put
        simp only [Prod.mk.injEq, Key.transition.injEq]
        constructor
        · rintro ⟨⟨rfl, rfl⟩, rfl⟩
          exact ⟨rfl, rfl, rfl⟩
        · rintro ⟨rfl, rfl, rfl⟩
          exact ⟨⟨rfl, rfl⟩, rfl⟩

theorem puts_observation
    (written : model.writeObservation jointAction arrived jointObservation p = .ok next) :
    Puts storage model (.observation jointAction arrived jointObservation p) next := by
  obtain ⟨row, found, written⟩ := bind_eq_ok_iff.mp written
  obtain ⟨table, set, written⟩ := bind_eq_ok_iff.mp written
  cases written
  obtain ⟨known, framed', _⟩ := framed.observations.set_eq_ok set
  obtain ⟨inside, _⟩ := (row_eq_ok_iff framed.small).mp found
  constructor
  case framed => exact { framed with observations := framed' }
  case isEventDriven => exact (Bool.or_false _).symm
  case within =>
    intro key q put
    apply within_of_put ?_ put
    exact ⟨inside.1, inside.2, known.2⟩
  case held =>
    intro key
    cases key with
    | transition => rfl
    | event state jointAction' arrived' jointObservation' =>
        -- Before there is a table of events they read as observations, but hold nothing.
        cases present : model.events with
        | none =>
            rw [held_event_of_absent present]
            exact held_event_of_absent rfl _ _ _ _
        | some events =>
            rw [held_event_of_present present]
            exact held_event_of_present rfl _ _ _ _
    | observation jointAction' arrived' jointObservation' =>
        apply (framed.observations.look_set (finds_row framed.small) (jointAction, arrived) found
          set (jointAction', arrived') jointObservation').trans
        apply getD_put
        simp only [Prod.mk.injEq, Key.observation.injEq, and_assoc]

theorem puts_event
    (success : (model.writeEventObservation state jointAction arrived jointObservation p).1 =
      .ok ()) :
    Puts storage model (.event state jointAction arrived jointObservation p)
      (model.writeEventObservation state jointAction arrived jointObservation p).2 := by
  unfold writeEventObservation at success ⊢
  cases opened : model.openEvents state jointAction arrived with
  | error fault =>
      rw [opened] at success
      cases success
  | ok place =>
      obtain ⟨events, row⟩ := place
      obtain ⟨_, countable, found, _⟩ := openEvents_eq_ok opened
      obtain ⟨tables, same⟩ := framed.opens opened
      simp only [opened] at success ⊢
      cases set : events.set row jointObservation p with
      | error fault =>
          rw [set] at success
          cases success
      | ok events' =>
          obtain ⟨known, tables', _⟩ := tables.set_eq_ok set
          obtain ⟨inside, _⟩ := (countable.eventRow_eq_ok_iff framed.inhabited).mp found
          constructor
          case framed =>
            exact { framed with
              events := fun held present => Option.some.inj present ▸ ⟨countable, tables'⟩ }
          case isEventDriven => exact (Bool.or_true _).symm
          case within =>
            intro key q put
            apply within_of_put ?_ put
            exact ⟨inside, known.2⟩
          case held =>
            intro key
            cases key with
            | transition => rfl
            | observation => rfl
            | event state' jointAction' arrived' jointObservation' =>
                apply (held_event_of_present rfl _ _ _ _).trans
                apply (tables.look_set (countable.finds_eventRow framed.inhabited)
                  (state, jointAction, arrived) found set (state', jointAction', arrived')
                  jointObservation').trans
                simp only [same]
                apply getD_put
                simp only [Prod.mk.injEq, Key.event.injEq, and_assoc]

theorem puts_initial {distribution : List W} (written : model.writeInitial distribution = .ok next) :
    Puts storage model (.initial distribution) next := by
  unfold writeInitial at written
  split at written
  · cases written
    constructor
    case framed => exact { framed with }
    case isEventDriven => exact (Bool.or_false _).symm
    case within => intro key p put; cases put
    case held => intro key; cases key <;> rfl
  · cases written

theorem puts {write : Write W} (success : (model.write write).1 = .ok ()) :
    Puts storage model write (model.write write).2 := by
  cases write with
  | transition => exact framed.puts_transition (settle_eq_ok success)
  | observation => exact framed.puts_observation (settle_eq_ok success)
  | event => exact framed.puts_event success
  | initial => exact framed.puts_initial (settle_eq_ok success)

/-- A write that is refused may open the table of events, which then fits as well. -/
theorem write (write : Write W) : (model.write write).2.Framed storage := by
  cases outcome : (model.write write).1 with
  | ok _ => exact (framed.puts outcome).framed
  | error fault =>
      cases write with
      | event state jointAction arrived jointObservation p =>
          simp only [Model.write, writeEventObservation] at outcome ⊢
          cases opened : model.openEvents state jointAction arrived with
          | error => exact framed
          | ok place =>
              obtain ⟨events, row⟩ := place
              obtain ⟨_, countable, _⟩ := openEvents_eq_ok opened
              obtain ⟨tables, _⟩ := framed.opens opened
              simp only [opened] at outcome ⊢
              cases set : events.set row jointObservation p with
              | ok events' =>
                  rw [set] at outcome
                  cases outcome
              | error =>
                  exact { framed with
                    events := fun held present => Option.some.inj present ▸ ⟨countable, tables⟩ }
      | transition => exact (settle_eq_error outcome) ▸ framed
      | observation => exact (settle_eq_error outcome) ▸ framed
      | initial => exact (settle_eq_error outcome) ▸ framed

/-- What is held after successful writes is what they put there, or else what was held before. -/
theorem writeAll {writes : List (Write W)}
    (successful : ∀ outcome ∈ (model.writeAll writes).1, outcome = .ok ()) :
    (model.writeAll writes).2.Framed storage ∧
      (∀ key, (model.writeAll writes).2.held key =
        ((written? key writes).map storage.keep).getD (model.held key)) ∧
        (∀ key p, written? key writes = some p → key.Within model) ∧
          (model.writeAll writes).2.isEventDriven =
            (model.isEventDriven || writes.any Write.isEvent) := by
  induction writes generalizing model with
  | nil =>
      refine ⟨framed, fun _ => rfl, fun key p put => ?_, (Bool.or_false _).symm⟩
      cases put
  | cons write writes ih =>
      obtain ⟨success, others⟩ := List.forall_mem_cons.mp successful
      have puts := framed.puts success
      obtain ⟨framed', held, within, driven⟩ := ih puts.framed others
      refine ⟨framed', fun key => (held key).trans ?_, fun key p put => ?_, driven.trans ?_⟩
      · rw [puts.held key, written?]
        cases written? key writes <;> rfl
      · rw [written?] at put
        cases later : written? key writes with
        | none =>
            rw [later] at put
            exact puts.within key p put
        | some q => exact (within_write model write key).mp (within key q later)
      · rw [puts.isEventDriven, List.any_cons, Bool.or_assoc]

end Framed

theorem Made.framed {storage : Storage} {model : Model W} (made : Made storage model) :
    model.Framed storage := by
  induction made with
  | created created => exact framed_of_create created
  | drawn drawn => exact framed_of_random drawn
  | written write _ ih => exact ih.write write

/-! ## Numbers of rows and cells -/

/-- Nothing on the way to a row or a cell exceeds a machine word, so each number is exact, and no read
in a row of a table halts the machine. While the rows by event cannot be counted, none of them is asked
for: there is no table of them, and none is opened. -/
structure Exact (model : Model W) : Prop where
  row : ∀ jointAction < model.jointActions, ∀ state < model.states,
    jointAction * model.states < wordBound ∧ jointAction * model.states + state < wordBound ∧
      model.row jointAction state = .ok (jointAction * model.states + state)
  eventRow : model.Countable → ∀ state < model.states,
    state * model.jointActions < wordBound ∧
      state * model.jointActions * model.states < wordBound ∧
        ∀ jointAction < model.jointActions, ∀ next < model.states,
          state * model.jointActions * model.states + (jointAction * model.states + next) <
              wordBound ∧
            model.eventRow state jointAction next = .ok
              (state * model.jointActions * model.states + (jointAction * model.states + next))
  countable : model.isEventDriven = true → model.Countable
  unopened : ¬ model.Countable → ∀ state jointAction next,
    ∃ fault, model.openEvents state jointAction next = .error fault
  cells : model.storage = .dense →
    model.transitions.Exact (model.jointActions * model.states) ∧
      model.observations.Exact (model.jointActions * model.states) ∧
        ∀ events, model.events = some events →
          events.Exact (model.states * model.jointActions * model.states)
  readable : ∀ row < model.jointActions * model.states, ∀ col,
    (∃ p, model.transitions.get row col = .ok p) ∧ ∃ p, model.observations.get row col = .ok p
  readable_event : ∀ events, model.events = some events →
    ∀ row < model.states * model.jointActions * model.states, ∀ col, ∃ p, events.get row col = .ok p

theorem Framed.exact {storage : Storage} {model : Model W} (framed : model.Framed storage) :
    model.Exact := by
  constructor
  case row =>
    intro jointAction known state inside
    have bounded := (mul_add_lt known inside).trans framed.small
    exact ⟨by omega, bounded, (row_eq_ok_iff framed.small).mpr ⟨⟨known, inside⟩, rfl⟩⟩
  case eventRow =>
    intro countable state inside
    obtain ⟨first, second⟩ := countable.product_lt framed.inhabited inside
    refine ⟨first, second, fun jointAction known next arrived => ?_⟩
    obtain ⟨placed, bounded⟩ := countable.eventRow_eq_ok framed.inhabited inside known arrived
    exact ⟨bounded.trans countable, placed⟩
  case countable =>
    intro driven
    obtain ⟨events, present⟩ := Option.isSome_iff_exists.mp driven
    exact (framed.events events present).1
  case unopened =>
    intro uncountable state jointAction next
    cases opened : model.openEvents state jointAction next with
    | error fault => exact ⟨fault, rfl⟩
    | ok place => exact absurd (openEvents_eq_ok opened).2.1 uncountable
  case cells =>
    intro flat
    obtain rfl : .dense = storage := flat.symm.trans framed.transitions.storage_eq
    exact ⟨framed.transitions.exact, framed.observations.exact,
      fun events present => (framed.events events present).2.exact⟩
  case readable =>
    exact fun row inside col =>
      ⟨framed.transitions.readable inside col, framed.observations.readable inside col⟩
  case readable_event =>
    exact fun events present row inside col => (framed.events events present).2.readable inside col

/-! ## Any writes -/

/-- Under every key the model answers with what was written there last, or else with what was held at
the start. -/
structure Remembers (start : Model W) (writes : List (Write W)) (model : Model W) : Prop where
  held : ∀ key, model.held key =
    ((written? key writes).map start.storage.keep).getD (start.held key)
  within : ∀ key p, written? key writes = some p → key.Within start
  beyond : ∀ key, ¬ key.Within start → model.held key = Weight.zero
  isEventDriven : model.isEventDriven = (start.isEventDriven || writes.any Write.isEvent)
  eventObservation : ∀ state jointAction next jointObservation,
    model.eventObservation state jointAction next jointObservation =
      if model.isEventDriven then model.held (.event state jointAction next jointObservation)
      else model.held (.observation jointAction next jointObservation)
  apart : ∀ write, (model.write write).1 = .ok () → ∀ key, write.under? key = none →
    (model.write write).2.held key = model.held key
  exact : model.Exact

theorem held_of_create {states : Nat} {alphabets : List Alphabet} {storage : Storage}
    {model : Model W} (created : create states alphabets storage = .ok model) :
    model.isEventDriven = false ∧ ∀ key, model.held key = Weight.zero := by
  obtain ⟨_, _, _, _, _, _, first, second, rfl⟩ := create_eq_ok created
  refine ⟨rfl, fun key => ?_⟩
  cases key with
  | transition => exact ProbabilityTable.look_of_create first _ _
  | observation => exact ProbabilityTable.look_of_create second _ _
  | event => exact held_event_of_absent rfl _ _ _ _

/-- However a model was made, after successful writes it answers as three maps do that were written
alike: under each key with what was written under that very key last. A model that was created blank
holds zero until then, and answers for observations alone until one was written by event. -/
theorem writeAll_remembers {storage : Storage} {start : Model W} (made : Made storage start)
    {writes : List (Write W)}
    (successful : ∀ outcome ∈ (start.writeAll writes).1, outcome = .ok ()) :
    Remembers start writes (start.writeAll writes).2 ∧
      ∀ states alphabets, create states alphabets storage = .ok start →
        start.isEventDriven = false ∧ ∀ key, start.held key = Weight.zero := by
  obtain ⟨framed, held, within, driven⟩ := made.framed.writeAll successful
  refine ⟨?_, fun _ _ => held_of_create⟩
  constructor
  case held =>
    have stored : start.storage = storage := made.framed.transitions.storage_eq
    rw [stored]
    exact held
  case within => exact within
  case beyond =>
    exact fun key beyond => framed.held_beyond fun within =>
      beyond ((within_writeAll start writes key).mp within)
  case isEventDriven => exact driven
  case exact => exact framed.exact
  case apart =>
    intro write success key none
    rw [(framed.puts success).held key, none]
    rfl
  case eventObservation =>
    intro state jointAction next jointObservation
    cases driven : (start.writeAll writes).2.isEventDriven with
    | true => simp [Model.held, driven]
    | false => exact eventObservation_of_plain driven state jointAction next jointObservation

/-- A transition written twice, and one observation by event. -/
def rewrites : List (Write Rat) :=
  [.transition 0 0 1 1, .observation 0 1 1 (1 / 2), .event 0 0 1 0 (3 / 4),
    .transition 0 0 1 (1 / 4), .initial [1, 0]]

theorem writeAll_remembers_rewrites :
    ∃ start : Model Rat, create 2 [⟨1, 2⟩] .sparse = .ok start ∧ Made .sparse start ∧
      (∀ outcome ∈ (start.writeAll rewrites).1, outcome = .ok ()) ∧
        (start.writeAll rewrites).2.transition 0 0 1 = 1 / 4 ∧
        (start.writeAll rewrites).2.transition 1 0 1 = 0 ∧
        (start.writeAll rewrites).2.isEventDriven = true ∧
        (start.writeAll rewrites).2.held (.event 0 0 1 0) = 3 / 4 := by
  obtain ⟨start, created⟩ : ∃ start : Model Rat, create 2 [⟨1, 2⟩] .sparse = .ok start :=
    ⟨_, rfl⟩
  have successful : ∀ outcome ∈ (start.writeAll rewrites).1, outcome = .ok () := by
    have accepted : ∀ outcome ∈ (start.writeAll rewrites).1, outcome.isOk = true := by
      cases created
      decide +kernel
    intro outcome listed
    obtain ⟨_, success⟩ := exists_of_isOk (accepted outcome listed)
    exact success
  obtain ⟨remembers, blank⟩ := writeAll_remembers (.created created) successful
  obtain ⟨_, zero⟩ := blank 2 [⟨1, 2⟩] created
  refine ⟨start, created, .created created, successful, ?_, ?_,
    remembers.isEventDriven.trans (Bool.or_true _), ?_⟩
  · exact (remembers.held (.transition 0 0 1)).trans (Storage.keep_rat _ _)
  · exact (remembers.held (.transition 1 0 1)).trans (zero (.transition 1 0 1))
  · exact (remembers.held (.event 0 0 1 0)).trans (Storage.keep_rat _ _)

end TeamPlanning.Model
