import Mathlib.Data.List.Forall2
import TeamPlanning.Fault.Basic

/-! # Outcomes

What the success or the failure of an operation says about its parts, and two ways to speak of a
whole outcome: next to the answer that it should have, and next to another outcome. -/

set_option autoImplicit false

namespace TeamPlanning

section Sequences

variable {ε α β σ : Type}

theorem bind_eq_ok_iff {action : Except ε α} {next : α → Except ε β} {output : β} :
    action >>= next = .ok output ↔ ∃ value, action = .ok value ∧ next value = .ok output := by
  cases action <;> simp [bind, Except.bind]

theorem bind_of_eq_ok {action : Except ε α} {value : α} (success : action = .ok value)
    (next : α → Except ε β) : action >>= next = next value := by
  rw [success]
  rfl

theorem bind_of_eq_error {action : Except ε α} {fault : ε} (failure : action = .error fault)
    (next : α → Except ε β) : action >>= next = .error fault := by
  rw [failure]
  rfl

theorem exists_of_isOk {outcome : Except ε α} (success : outcome.isOk = true) :
    ∃ value, outcome = .ok value := by
  cases outcome with
  | error fault => cases success
  | ok value => exact ⟨value, rfl⟩

theorem eq_ok_of_toOption {outcome : Except ε α} {value : α}
    (success : outcome.toOption = some value) : outcome = .ok value := by
  cases outcome with
  | error fault => cases success
  | ok held =>
      cases success
      rfl

theorem mapM_eq_ok_iff {visit : α → Except ε β} {items : List α} {results : List β} :
    items.mapM visit = .ok results ↔
      List.Forall₂ (fun item result => visit item = .ok result) items results := by
  induction items generalizing results with
  | nil =>
      simp only [List.mapM_nil, pure, Except.pure, Except.ok.injEq]
      constructor
      · intro same
        subst same
        exact .nil
      · intro same
        cases same
        rfl
  | cons item items ih =>
      rw [List.mapM_cons]
      constructor
      · intro accepted
        obtain ⟨result, first, accepted⟩ := bind_eq_ok_iff.mp accepted
        obtain ⟨rest, others, accepted⟩ := bind_eq_ok_iff.mp accepted
        cases accepted
        exact .cons first (ih.mp others)
      · intro related
        cases related with
        | cons first others =>
            rw [bind_of_eq_ok first, bind_of_eq_ok (ih.mpr others)]
            rfl

theorem forM_eq_ok_iff {visit : α → Except ε Unit} {items : List α} :
    items.forM visit = .ok () ↔ ∀ item ∈ items, visit item = .ok () := by
  induction items with
  | nil => exact ⟨fun _ => List.forall_mem_nil _, fun _ => rfl⟩
  | cons item items ih =>
      have split : (item :: items).forM visit = visit item >>= fun _ => items.forM visit := rfl
      rw [split, bind_eq_ok_iff, List.forall_mem_cons, ← ih]
      exact ⟨fun accepted => accepted.elim fun _ both => both, fun both => ⟨(), both⟩⟩

theorem forall₂_iff_getElem? {relation : α → β → Prop} {items : List α} {results : List β} :
    List.Forall₂ relation items results ↔ results.length = items.length ∧
      ∀ (place : Nat) item result, items[place]? = some item → results[place]? = some result →
        relation item result := by
  rw [List.forall₂_iff_get, eq_comm]
  refine and_congr_right fun matched => ⟨fun each place item result found found' => ?_,
    fun each place inside inside' => ?_⟩
  · obtain ⟨inside, rfl⟩ := List.getElem?_eq_some_iff.mp found
    obtain ⟨inside', rfl⟩ := List.getElem?_eq_some_iff.mp found'
    exact each place inside inside'
  · exact each place _ _ (List.getElem?_eq_getElem inside) (List.getElem?_eq_getElem inside')

theorem mapM_eq_ok_iff_getElem? {visit : α → Except ε β} {items : List α} {results : List β} :
    items.mapM visit = .ok results ↔ results.length = items.length ∧
      ∀ (place : Nat) item result, items[place]? = some item → results[place]? = some result →
        visit item = .ok result :=
  mapM_eq_ok_iff.trans forall₂_iff_getElem?

/-- Items that are visited one by one, each answered as expected where that is allowed. -/
theorem mapM_eq_ok_iff_of_each {visit : α → Except ε β} {items : List α}
    {expected results : List β} {allowed : Nat → Prop} (long : expected.length = items.length)
    (each : ∀ (place : Nat) item answer, items[place]? = some item →
      expected[place]? = some answer →
        ∀ result, visit item = .ok result ↔ allowed place ∧ answer = result) :
    items.mapM visit = .ok results ↔
      (∀ place, place < items.length → allowed place) ∧ expected = results := by
  rw [mapM_eq_ok_iff_getElem?]
  constructor
  · intro given
    obtain ⟨matched, visited⟩ := given
    have step : ∀ place (inside : place < items.length) (inside' : place < expected.length)
        (inside'' : place < results.length), allowed place ∧ expected[place] = results[place] := by
      intro place inside inside' inside''
      have listed := List.getElem?_eq_getElem inside
      refine (each place _ _ listed (List.getElem?_eq_getElem inside') _).mp ?_
      exact visited place _ _ listed (List.getElem?_eq_getElem inside'')
    refine ⟨fun place inside => ?_, List.ext_getElem (long.trans matched.symm) fun place _ _ => ?_⟩
    · exact (step place inside (by omega) (by omega)).1
    · exact (step place (by omega) (by omega) (by omega)).2
  · intro given
    obtain ⟨permitted, rfl⟩ := given
    refine ⟨long, fun place item answer listed found => ?_⟩
    have inside := (List.getElem?_eq_some_iff.mp listed).1
    exact (each place item answer listed found answer).mpr ⟨permitted place inside, rfl⟩

theorem exists_mapM_eq_ok {visit : α → Except ε β} {items : List α}
    (each : ∀ item ∈ items, ∃ result, visit item = .ok result) :
    ∃ results, items.mapM visit = .ok results := by
  induction items with
  | nil => exact ⟨[], rfl⟩
  | cons item items ih =>
      obtain ⟨⟨result, first⟩, each⟩ := List.forall_mem_cons.mp each
      obtain ⟨results, rest⟩ := ih each
      exact ⟨result :: results, mapM_eq_ok_iff.mpr (.cons first (mapM_eq_ok_iff.mp rest))⟩

theorem mapM_eq_ok_map {visit : α → Except ε β} {answer : α → β} {items : List α}
    (each : ∀ item ∈ items, visit item = .ok (answer item)) :
    items.mapM visit = .ok (items.map answer) := by
  refine mapM_eq_ok_iff.mpr (List.forall₂_map_right_iff.mpr ?_)
  exact List.forall₂_same.mpr each

theorem mapM_eq_error {visit : α → Except ε β} {items : List α}
    (failing : ∃ item ∈ items, ∃ fault, visit item = .error fault) :
    ∃ item ∈ items, ∃ fault, visit item = .error fault ∧ items.mapM visit = .error fault := by
  induction items with
  | nil => simp at failing
  | cons head items ih =>
      rw [List.mapM_cons]
      cases first : visit head with
      | error fault => exact ⟨head, .head _, fault, first, rfl⟩
      | ok result =>
          have later : ∃ item ∈ items, ∃ fault, visit item = .error fault := by
            obtain ⟨item, member, fault, failed⟩ := failing
            rcases List.mem_cons.mp member with rfl | member
            · rw [first] at failed
              cases failed
            · exact ⟨item, member, fault, failed⟩
          obtain ⟨item, member, fault, failed, whole⟩ := ih later
          refine ⟨item, .tail _ member, fault, failed, ?_⟩
          rw [bind_of_eq_ok rfl, bind_of_eq_error whole]

/-- What an outcome gives: `answer` holds of the answer, `refusal` of the fault. -/
def Meets (outcome : Except ε α) (answer : α → Prop) (refusal : ε → Prop) : Prop :=
  match outcome with
  | .ok value => answer value
  | .error fault => refusal fault

theorem Meets.of_eq_ok {outcome : Except ε α} {value : α} {answer : α → Prop} {refusal : ε → Prop}
    (meets : Meets outcome answer refusal) (success : outcome = .ok value) : answer value := by
  subst success
  exact meets

theorem Meets.imp {outcome : Except ε α} {answer weaker : α → Prop} {refusal : ε → Prop}
    (meets : Meets outcome answer refusal) (weaken : ∀ value, answer value → weaker value) :
    Meets outcome weaker refusal := by
  cases outcome with
  | error fault => exact meets
  | ok value => exact weaken value meets

theorem Meets.exists_eq_ok {outcome : Except ε α} {answer : α → Prop} {refusal : ε → Prop}
    (meets : Meets outcome answer refusal) (never : ∀ fault, ¬ refusal fault) :
    ∃ value, outcome = .ok value ∧ answer value := by
  cases outcome with
  | error fault => exact absurd meets (never fault)
  | ok value => exact ⟨value, rfl, meets⟩

theorem Meets.bind {action : Except ε α} {next : α → Except ε β} {middle : α → Prop}
    {answer : β → Prop} {refusal : ε → Prop} (first : Meets action middle refusal)
    (second : ∀ value, middle value → Meets (next value) answer refusal) :
    Meets (action >>= next) answer refusal := by
  cases action with
  | error fault => exact first
  | ok value => exact second value first

/-- A fold keeps what every step keeps. The invariant speaks of the items that are left and of the
state, so it may tell how far the fold has come. -/
theorem Meets.foldlM {step : σ → α → Except ε σ} (invariant : List α → σ → Prop)
    {refusal : ε → Prop}
    (kept : ∀ item rest state, invariant (item :: rest) state →
      Meets (step state item) (invariant rest) refusal)
    {items : List α} {state : σ} (start : invariant items state) :
    Meets (items.foldlM step state) (invariant []) refusal := by
  induction items generalizing state with
  | nil => exact start
  | cons item rest ih =>
      rw [List.foldlM_cons]
      exact (kept item rest state start).bind fun _ => ih

theorem foldlM_congr {step step' : σ → α → Except ε σ} {items : List α}
    (same : ∀ item ∈ items, ∀ state, step state item = step' state item) (state : σ) :
    items.foldlM step state = items.foldlM step' state := by
  induction items generalizing state with
  | nil => rfl
  | cons item items ih =>
      rw [List.foldlM_cons, List.foldlM_cons, same item List.mem_cons_self]
      exact bind_congr fun next =>
        ih (fun other member => same other (List.mem_cons_of_mem item member)) next

/-- What every accepted step keeps, an accepted fold keeps. -/
theorem foldlM_keeps {step : σ → α → Except ε σ} (invariant : σ → Prop)
    (kept : ∀ state item next, invariant state → step state item = .ok next → invariant next)
    {items : List α} {state result : σ} (start : invariant state)
    (accepted : items.foldlM step state = .ok result) : invariant result := by
  induction items generalizing state with
  | nil =>
      cases accepted
      exact start
  | cons item items ih =>
      rw [List.foldlM_cons] at accepted
      obtain ⟨next, first, rest⟩ := bind_eq_ok_iff.mp accepted
      exact ih (kept state item next start first) rest

end Sequences

section Answers

variable {α β : Type}

/-- The outcome is the answer; or there is none, and the fault says that something is missing. -/
def Answers (outcome : Except Fault α) : Option α → Prop
  | some answer => outcome = .ok answer
  | none => ∃ cause, outcome = .error (.missing cause)

/-- Two outcomes with the same answer, or with faults of the same kind. -/
def SameOutcome (left right : Except Fault α) : Prop :=
  left.mapError Fault.kind = right.mapError Fault.kind

theorem Answers.sameOutcome {left right : Except Fault α} {answer? : Option α}
    (first : Answers left answer?) (second : Answers right answer?) : SameOutcome left right := by
  cases answer? with
  | some answer =>
      have equal : left = right := first.trans second.symm
      rw [equal]
      rfl
  | none =>
      obtain ⟨_, rfl⟩ := first
      obtain ⟨_, rfl⟩ := second
      rfl

theorem Answers.eq_ok_iff {outcome : Except Fault α} {answer? : Option α}
    (answers : Answers outcome answer?) {answer : α} :
    outcome = .ok answer ↔ answer? = some answer := by
  cases answer? with
  | some held =>
      obtain rfl : outcome = .ok held := answers
      simp
  | none =>
      obtain ⟨_, rfl⟩ := answers
      simp

/-- What follows on an answer is an answer where the first one is. -/
theorem Answers.bind_if {outcome : Except Fault α} {next : α → Except Fault β}
    {allowed : Prop} [Decidable allowed] {value : α} {answer : β}
    (first : Answers outcome (if allowed then some value else none))
    (second : allowed → next value = .ok answer) :
    Answers (outcome >>= next) (if allowed then some answer else none) := by
  by_cases permitted : allowed
  · rw [if_pos permitted] at first ⊢
    exact (bind_of_eq_ok first next).trans (second permitted)
  · rw [if_neg permitted] at first ⊢
    obtain ⟨cause, failed⟩ := first
    exact ⟨cause, bind_of_eq_error failed next⟩

/-- The operation may fail, but not for a result that is too large, nor because the machine halts. -/
def NeverExceeds (outcome : Except Fault α) : Prop :=
  ∀ fault, outcome = .error fault → fault.kind ≠ .tooLarge ∧ fault.kind ≠ .halted

theorem neverExceeds_of_eq_ok {outcome : Except Fault α} {value : α}
    (success : outcome = .ok value) : NeverExceeds outcome := by
  intro fault failed
  rw [success] at failed
  cases failed

theorem neverExceeds_missing (cause : Fault.Missing) :
    NeverExceeds (.error (.missing cause) : Except Fault α) := by
  intro fault failed
  cases failed
  exact ⟨nofun, nofun⟩

theorem Answers.neverExceeds {outcome : Except Fault α} {answer? : Option α}
    (answers : Answers outcome answer?) : NeverExceeds outcome := by
  cases answer? with
  | some answer => exact neverExceeds_of_eq_ok answers
  | none =>
      obtain ⟨cause, missing⟩ := answers
      rw [missing]
      exact neverExceeds_missing cause

theorem NeverExceeds.bind {action : Except Fault α} {next : α → Except Fault β}
    (first : NeverExceeds action) (second : ∀ value, action = .ok value → NeverExceeds (next value)) :
    NeverExceeds (action >>= next) := by
  cases action with
  | error fault =>
      intro fault failed
      cases failed
      exact first fault rfl
  | ok value => exact second value rfl

theorem NeverExceeds.mapM {visit : α → Except Fault β} {items : List α}
    (each : ∀ item ∈ items, NeverExceeds (visit item)) : NeverExceeds (items.mapM visit) := by
  induction items with
  | nil => exact neverExceeds_of_eq_ok rfl
  | cons item items ih =>
      rw [List.mapM_cons]
      refine (each item List.mem_cons_self).bind fun _ _ => ?_
      refine (ih fun other member => each other (List.mem_cons_of_mem item member)).bind ?_
      exact fun _ _ => neverExceeds_of_eq_ok rfl

end Answers

end TeamPlanning
