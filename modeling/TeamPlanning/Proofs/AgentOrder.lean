import Mathlib.Algebra.BigOperators.Ring.List
import TeamPlanning.Proofs.Counting
import TeamPlanning.Proofs.Rows
import TeamPlanning.Weight.Float

/-! # The order of the agents

The team's alphabet is formed from products over the agents. It is the same in every order of the
agents, but whether it is refused may depend on the order: only if some agent has no symbols of a kind
while the other agents' symbols of that kind are too many already. A model of the team is refused with
its alphabet, and otherwise does not depend on the order any further. -/

set_option autoImplicit false

namespace TeamPlanning

section Outcomes

variable {α β : Type} {left right : Except Fault α}

theorem SameOutcome.refl (outcome : Except Fault α) : SameOutcome outcome outcome := rfl

/-- Two operations go on alike after the same outcome, up to a change of what the first one gives. -/
theorem SameOutcome.bind_map {next next' : α → Except Fault β} {change : β → β}
    (first : SameOutcome left right)
    (second : ∀ value, SameOutcome ((next value).map change) (next' value)) :
    SameOutcome ((left >>= next).map change) (right >>= next') := by
  cases left with
  | ok value =>
      cases right with
      | ok value' =>
          cases first
          exact second value
      | error fault => cases first
  | error fault =>
      cases right with
      | ok value => cases first
      | error fault' => exact congrArg Except.error (Except.error.inj first)

theorem SameOutcome.eq_ok_iff (same : SameOutcome left right) {value : α} :
    left = .ok value ↔ right = .ok value := by
  cases left <;> cases right <;> simp_all [SameOutcome, Except.mapError]

/-- Operations that are refused only for their size agree if they give the same answers. -/
theorem OnlyExceeds.sameOutcome (first : OnlyExceeds left) (second : OnlyExceeds right)
    (same : ∀ value, left = .ok value ↔ right = .ok value) : SameOutcome left right := by
  cases left with
  | ok value => rw [(same value).mp rfl]; rfl
  | error fault =>
      obtain ⟨excess, rfl⟩ := first
      obtain ⟨excess', rfl⟩ := second.eq_error fun value success =>
        absurd ((same value).mpr success) (by simp)
      rfl

end Outcomes

namespace Bounded

theorem onlyExceeds_prod (factors : List Nat) : OnlyExceeds (prod factors) :=
  Meets.foldlM (fun _ _ => True) (fun factor _ start _ => onlyExceeds_mul start factor) trivial

/-- The product is counted exactly, unless a zero comes after factors that leave the range. -/
theorem counts_prod_iff (factors : List Nat) : Counts (prod factors) factors.prod ↔
    (0 ∈ factors → (leading factors).prod < wordBound) := by
  constructor
  · intro counts held
    have fits : factors.prod < wordBound := by
      rw [List.prod_eq_zero held]
      decide
    rw [Counts, if_pos fits] at counts
    exact (prod_eq_ok_iff.mp counts).1
  · intro early
    refine counts_of_onlyExceeds (onlyExceeds_prod factors) fun product => ?_
    rw [prod_eq_ok_iff]
    by_cases held : 0 ∈ factors
    · have unit : (0 : Nat) < wordBound := by decide
      rw [List.prod_eq_zero held]
      exact and_congr_left fun _ => iff_of_true (early held) unit
    · rw [leading_of_no_zero held]

end Bounded

namespace Alphabet

variable {agents other : List Alphabet}

/-- The factors before the first zero are in range, for the actions as for the observations. -/
def Joins (agents : List Alphabet) : Prop :=
  (Bounded.leading (agents.map (·.actions))).prod < wordBound ∧
    (Bounded.leading (agents.map (·.observations))).prod < wordBound

theorem joint_eq_ok_iff {joint : Alphabet} :
    Alphabet.joint agents = .ok joint ↔ Joins agents ∧ joint = product agents := by
  constructor
  · intro joined
    obtain ⟨actions, first, rest⟩ := bind_eq_ok_iff.mp joined
    obtain ⟨observations, second, _⟩ := bind_eq_ok_iff.mp rest
    exact ⟨⟨(Bounded.prod_eq_ok_iff.mp first).1, (Bounded.prod_eq_ok_iff.mp second).1⟩,
      joint_eq_product joined⟩
  · rintro ⟨⟨actions, observations⟩, rfl⟩
    exact (bind_of_eq_ok (Bounded.prod_eq_ok_iff.mpr ⟨actions, rfl⟩) _).trans
      (bind_of_eq_ok (Bounded.prod_eq_ok_iff.mpr ⟨observations, rfl⟩) _)

theorem onlyExceeds_joint (agents : List Alphabet) : OnlyExceeds (Alphabet.joint agents) :=
  (Bounded.onlyExceeds_prod _).bind fun _ _ => (Bounded.onlyExceeds_prod _).bind fun _ _ => trivial

theorem product_perm (same : other.Perm agents) : product other = product agents := by
  rw [product, product, (same.map _).prod_eq, (same.map _).prod_eq]

theorem sameOutcome_joint_iff (same : other.Perm agents) :
    SameOutcome (Alphabet.joint other) (Alphabet.joint agents) ↔ (Joins other ↔ Joins agents) := by
  constructor
  · intro alike
    have answers : Alphabet.joint other = .ok (product agents) ↔
        Alphabet.joint agents = .ok (product agents) := alike.eq_ok_iff
    simpa [joint_eq_ok_iff, product_perm same] using answers
  · intro alike
    refine (onlyExceeds_joint other).sameOutcome (onlyExceeds_joint agents) fun joint => ?_
    rw [joint_eq_ok_iff, joint_eq_ok_iff, alike, product_perm same]

/-! ## Orders that are taken and refused -/

/-- The team's alphabet is the same in every order of the agents, or refused in every order. -/
def OrderFree (agents : List Alphabet) : Prop :=
  ∀ other, other.Perm agents → SameOutcome (Alphabet.joint other) (Alphabet.joint agents)

/-- Unless the agents have too many actions, or too many observations, in every order, there is an
order that is taken: an agent without actions comes first, and one without observations next. -/
theorem exists_joins (words : ∀ agent ∈ agents, agent.observations < wordBound)
    (acting : ¬ Bounded.NeverFits (agents.map (·.actions)))
    (observing : ¬ Bounded.NeverFits (agents.map (·.observations))) :
    ∃ other, other.Perm agents ∧ Joins other := by
  by_cases idle : 0 ∈ agents.map (·.actions)
  · obtain ⟨first, rest, order, zero⟩ := Bounded.exists_zero_first idle
    by_cases none : first.observations = 0
    · exact ⟨first :: rest, order, Bounded.leading_lt_of_zero_first zero rest,
        Bounded.leading_lt_of_zero_first none rest⟩
    · by_cases blind : 0 ∈ rest.map (·.observations)
      · obtain ⟨second, others, order', zero'⟩ := Bounded.exists_zero_first blind
        refine ⟨first :: second :: others, (order'.cons first).trans order,
          Bounded.leading_lt_of_zero_first zero _, ?_⟩
        rw [List.map_cons, List.map_cons, zero', Bounded.leading_cons none,
          Bounded.leading_zero_cons, List.prod_singleton]
        exact words first (order.mem_iff.mp List.mem_cons_self)
      · have free : 0 ∉ agents.map (·.observations) := by
          rw [← (order.map _).mem_iff]
          simpa [Ne.symm none] using blind
        exact ⟨first :: rest, order, Bounded.leading_lt_of_zero_first zero rest,
          (Bounded.alwaysFits_of_no_zero free observing).leading_lt (order.map _)⟩
  · have fits := Bounded.alwaysFits_of_no_zero idle acting
    by_cases blind : 0 ∈ agents.map (·.observations)
    · obtain ⟨first, rest, order, zero⟩ := Bounded.exists_zero_first blind
      exact ⟨first :: rest, order, fits.leading_lt (order.map _),
        Bounded.leading_lt_of_zero_first zero rest⟩
    · have fits' := Bounded.alwaysFits_of_no_zero blind observing
      exact ⟨agents, .refl _, fits.leading_lt (.refl _), fits'.leading_lt (.refl _)⟩

/-- If the product is out of range for the agents that have symbols, an order is refused: agents
without symbols come last. -/
theorem exists_not_joins
    (exceeds : ¬ (Bounded.AlwaysFits (agents.map (·.actions)) ∧
      Bounded.AlwaysFits (agents.map (·.observations)))) :
    ∃ other, other.Perm agents ∧ ¬ Joins other := by
  by_cases fits : Bounded.AlwaysFits (agents.map (·.actions))
  · obtain ⟨last, order, same⟩ := Bounded.exists_zeros_last (·.observations) agents
    refine ⟨last, order, fun joins => exceeds ⟨fits, ?_⟩⟩
    rw [Bounded.AlwaysFits, ← same]
    exact joins.2
  · obtain ⟨last, order, same⟩ := Bounded.exists_zeros_last (·.actions) agents
    refine ⟨last, order, fun joins => fits ?_⟩
    rw [Bounded.AlwaysFits, ← same]
    exact joins.1

theorem orderFree_iff (words : ∀ agent ∈ agents, agent.observations < wordBound) :
    OrderFree agents ↔
      Bounded.AlwaysFits (agents.map (·.actions)) ∧
          Bounded.AlwaysFits (agents.map (·.observations)) ∨
        Bounded.NeverFits (agents.map (·.actions)) ∨
          Bounded.NeverFits (agents.map (·.observations)) := by
  constructor
  · intro free
    by_contra mixed
    simp only [not_or] at mixed
    obtain ⟨exceeds, acting, observing⟩ := mixed
    obtain ⟨taken, order, joins⟩ := exists_joins words acting observing
    obtain ⟨refused, order', fails⟩ := exists_not_joins exceeds
    have same := (sameOutcome_joint_iff order).mp (free taken order)
    have same' := (sameOutcome_joint_iff order').mp (free refused order')
    exact fails (same'.mpr (same.mp joins))
  · intro given other order
    rw [sameOutcome_joint_iff order]
    rcases given with ⟨fits, fits'⟩ | exceeds | exceeds
    · exact iff_of_true ⟨fits.leading_lt (order.map _), fits'.leading_lt (order.map _)⟩
        ⟨fits.leading_lt (.refl _), fits'.leading_lt (.refl _)⟩
    · exact iff_of_false (fun joins => Nat.not_lt.mpr (exceeds.le_leading (order.map _)) joins.1)
        fun joins => Nat.not_lt.mpr (exceeds.le_leading (.refl _)) joins.1
    · exact iff_of_false (fun joins => Nat.not_lt.mpr (exceeds.le_leading (order.map _)) joins.2)
        fun joins => Nat.not_lt.mpr (exceeds.le_leading (.refl _)) joins.2

end Alphabet

namespace Model

variable {W : Type} [Weight W] {states : Nat} {agents other : List Alphabet} {storage : Storage}

omit [Weight W] in
/-- The same model, for the agents as listed. -/
def relist (agents : List Alphabet) (model : Model W) : Model W := { model with alphabets := agents }

/-- The team's alphabet is the first thing that a model is refused for. -/
theorem create_of_joint_refused (inhabited : 0 < states) (team : agents ≠ []) {fault : Fault}
    (refused : Alphabet.joint agents = .error fault) (storage : Storage) :
    (create states agents storage : Except Fault (Model W)) = .error fault := by
  have present : ¬ (states = 0 ∨ agents = []) := by
    rintro (none | none)
    · omega
    · exact team none
  rw [create, if_neg present]
  exact bind_of_eq_error refused _

theorem create_relist (order : other.Perm agents)
    (alike : SameOutcome (Alphabet.joint other) (Alphabet.joint agents)) :
    SameOutcome ((create states other storage).map (relist (W := W) agents))
      (create states agents storage) := by
  have long : other.length = agents.length := order.length_eq
  have empty : other = [] ↔ agents = [] := by
    rw [← List.length_eq_zero_iff, long, List.length_eq_zero_iff]
  by_cases absent : states = 0 ∨ agents = []
  · rw [create, create, if_pos absent, if_pos (absent.imp_right empty.mpr), long]
    rfl
  · rw [create, create, if_neg absent, if_neg fun given => absent (given.imp_right empty.mp)]
    refine alike.bind_map fun joint => ?_
    refine (SameOutcome.refl _).bind_map fun rows => ?_
    refine (SameOutcome.refl _).bind_map fun transitions => ?_
    exact (SameOutcome.refl _).bind_map fun observations => .refl _

/-- Products are refused for the factors before their first zero, so they are counted exactly unless a
zero comes too late. The order of the agents does not matter to the team's alphabet just if for both
kinds of symbols the sizes other than zero stay in range, or if one kind is out of range without a zero.
A model is refused with the alphabet of its team, and depends on the order no further. -/
theorem products_exact_and_orderFree_iff (counts : List Nat)
    (words : ∀ agent ∈ agents, agent.observations < wordBound) :
    ((if (Bounded.leading counts).prod < wordBound then Bounded.prod counts = .ok counts.prod
        else ∃ excess, Bounded.prod counts = .error (.tooLarge excess)) ∧
      (Bounded.Counts (Bounded.prod counts) counts.prod ↔
        (0 ∈ counts → (Bounded.leading counts).prod < wordBound))) ∧
    (Alphabet.OrderFree agents ↔
      Bounded.AlwaysFits (agents.map (·.actions)) ∧
          Bounded.AlwaysFits (agents.map (·.observations)) ∨
        Bounded.NeverFits (agents.map (·.actions)) ∨
          Bounded.NeverFits (agents.map (·.observations))) ∧
    ∀ (states : Nat) (storage : Storage),
      (0 < states → agents ≠ [] → ∀ fault, Alphabet.joint agents = .error fault →
        (create states agents storage : Except Fault (Model W)) = .error fault) ∧
      (Alphabet.OrderFree agents → ∀ other, other.Perm agents →
        SameOutcome ((create states other storage).map (relist (W := W) agents))
          (create states agents storage)) := by
  refine ⟨⟨?_, Bounded.counts_prod_iff counts⟩, Alphabet.orderFree_iff words, ?_⟩
  · split
    · rename_i fits
      exact Bounded.prod_eq_ok_iff.mpr ⟨fits, rfl⟩
    · rename_i large
      refine (Bounded.onlyExceeds_prod counts).eq_error fun product formed => large ?_
      exact (Bounded.prod_eq_ok_iff.mp formed).1
  · intro states storage
    constructor
    · intro inhabited team fault refused
      exact create_of_joint_refused inhabited team refused storage
    · exact fun free other order => create_relist order (free other order)

/-- Agents without actions or without observations do no harm where the others are few. -/
def sparing : List Alphabet := [⟨2 ^ 32, 2⟩, ⟨0, 3⟩, ⟨2 ^ 31, 0⟩]

theorem products_exact_and_orderFree_iff_sparing :
    (∀ agent ∈ sparing, agent.observations < wordBound) ∧
      Bounded.prod [2 ^ 63, 1, 0, 2 ^ 40] = .ok 0 ∧ Alphabet.OrderFree sparing ∧
        ∀ other, other.Perm sparing → SameOutcome
          ((create 1 other .dense).map (relist (W := Float) sparing)) (create 1 sparing .dense) := by
  have words : ∀ agent ∈ sparing, agent.observations < wordBound := by decide
  obtain ⟨⟨counted, _⟩, order, models⟩ :=
    products_exact_and_orderFree_iff (W := Float) [2 ^ 63, 1, 0, 2 ^ 40] words
  rw [if_pos (by decide)] at counted
  have free : Alphabet.OrderFree sparing := order.mpr (.inl (by decide))
  exact ⟨words, counted, free, (models 1 .dense).2 free⟩

/-- A zero comes too late for the product, so that the order of the agents matters. -/
theorem zero_comes_too_late :
    [2 ^ 63, 2, 0].prod < wordBound ∧
      Bounded.prod [2 ^ 63, 2, 0] = .error (.tooLarge (.product (2 ^ 63) 2)) ∧
        ¬ Alphabet.OrderFree [⟨2 ^ 63, 1⟩, ⟨2, 1⟩, ⟨0, 1⟩] ∧
          (create 1 [⟨2 ^ 63, 1⟩, ⟨2, 1⟩, ⟨0, 1⟩] .dense : Except Fault (Model Float)) =
              .error (.tooLarge (.product (2 ^ 63) 2)) ∧
            (create 1 [⟨0, 1⟩, ⟨2 ^ 63, 1⟩, ⟨2, 1⟩] .dense : Except Fault (Model Float)).isOk := by
  refine ⟨by decide, by decide, fun free => ?_, rfl, by decide +kernel⟩
  have same := free [⟨0, 1⟩, ⟨2 ^ 63, 1⟩, ⟨2, 1⟩] (by decide)
  have taken : Alphabet.joint [⟨0, 1⟩, ⟨2 ^ 63, 1⟩, ⟨2, 1⟩] = .ok ⟨0, 1⟩ := rfl
  exact absurd (same.eq_ok_iff.mp taken) (by decide +kernel)

end Model

end TeamPlanning
