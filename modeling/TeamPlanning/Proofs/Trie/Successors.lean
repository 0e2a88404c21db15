import Mathlib.Data.List.Sort
import TeamPlanning.Proofs.Trie.Queries

/-! # The successors of an entry

An entry is listed with all entries that extend it by one letter and with nothing else, in the order of
letters. Forks do not show: behind one of them the letter is a pair, and the entry before a pair is the
one that the fork hangs from. So every entry but the root is listed once, after one entry. -/

set_option autoImplicit false

namespace TeamPlanning

/-! ## The order of letters -/

namespace Letter

/-- Single parts come first; pairs follow by their actions, and then by their observations. -/
inductive Before : Letter → Letter → Prop where
  | ones {s t : Nat} (less : s < t) : Before (.one s) (.one t)
  | mixed {s a o : Nat} : Before (.one s) (.pair a o)
  | actions {a b o p : Nat} (less : a < b) : Before (.pair a o) (.pair b p)
  | observations {a o p : Nat} (less : o < p) : Before (.pair a o) (.pair a p)

/-- The key of the first edge that the letter follows. -/
def firstKey : Letter → Nat
  | .one key => key
  | .pair action _ => action

variable {one other third : Letter}

theorem le_total (one other : Letter) : one.le other = true ∨ other.le one = true := by
  cases one <;> cases other <;> simp only [le, decide_eq_true_eq, Bool.or_eq_true,
    Bool.and_eq_true, beq_iff_eq, or_true, true_or] <;> omega

theorem le_trans (first : one.le other = true) (second : other.le third = true) :
    one.le third = true := by
  cases one <;> cases other <;> cases third <;> simp only [le, decide_eq_true_eq, Bool.or_eq_true,
    Bool.and_eq_true, beq_iff_eq, Bool.false_eq_true] at first second ⊢ <;> omega

theorem before_of_le (ordered : one.le other = true) (different : one ≠ other) :
    one.Before other := by
  cases one with
  | one s =>
      cases other with
      | one t =>
          simp only [le, decide_eq_true_eq, ne_eq, one.injEq] at ordered different
          exact .ones (by omega)
      | pair b p => exact .mixed
  | pair a o =>
      cases other with
      | one t => cases ordered
      | pair b p =>
          simp only [le, Bool.or_eq_true, Bool.and_eq_true, decide_eq_true_eq, beq_iff_eq, ne_eq,
            pair.injEq, not_and] at ordered different
          rcases ordered with less | ⟨rfl, ordered⟩
          · exact .actions less
          · have different := different rfl
            exact .observations (by omega)

theorem before_irrefl : ¬ one.Before one := by
  intro ordered
  cases ordered with
  | ones less => exact Nat.lt_irrefl _ less
  | actions less => exact Nat.lt_irrefl _ less
  | observations less => exact Nat.lt_irrefl _ less

end Letter

namespace Trie

variable {α : Type} {trie : Trie α} {v u w top : Nat} {letter letter' : Letter}

theorem firstKey_of_mem {key child : Nat} {place : Letter × Nat}
    (member : place ∈ trie.lettersAt (key, child)) : place.1.firstKey = key := by
  cases isFork : trie.isFork child with
  | true =>
      rw [lettersAt_of_fork isFork] at member
      obtain ⟨below, _, rfl⟩ := List.mem_map.mp member
      rfl
  | false =>
      rw [lettersAt_of_entry isFork] at member
      rw [List.mem_singleton.mp member]
      rfl

namespace Linked

variable (linked : trie.Linked)
include linked

theorem isEntry_of_leads (leads : trie.Leads v letter w) : trie.IsEntry w := by
  cases leads with
  | single found entry =>
      obtain ⟨node, live, _⟩ := linked.live_of_child? found
      exact isEntry_of_lives ⟨node, live⟩ entry
  | paired _ isFork below =>
      exact linked.below_fork isFork (linked.edge_iff.mpr (linked.above?_of_child? below))

theorem predecessor_of_leads (leads : trie.Leads v letter w) (entry : trie.IsEntry v) :
    trie.predecessor w = .ok v := by
  have reached := linked.isEntry_of_leads leads
  cases leads with
  | single found _ =>
      exact predecessor_of_entry reached (linked.above?_of_child? found) (isFork_of_isEntry entry)
  | paired found isFork below =>
      exact predecessor_of_fork reached (linked.above?_of_child? below) isFork
        (linked.above?_of_child? found)

/-- Two ways to an entry are the same: it hangs in one place, and not both from an entry and from a
fork. -/
theorem leads_unique (leads : trie.Leads v letter w) (leads' : trie.Leads v letter' w)
    (entry : trie.IsEntry v) : letter = letter' := by
  have noFork := isFork_of_isEntry entry
  cases leads with
  | single found _ =>
      cases leads' with
      | single found' _ => rw [(linked.child?_injective found found').2]
      | paired _ isFork below =>
          obtain ⟨rfl, _⟩ := linked.child?_injective found below
          rw [noFork] at isFork
          cases isFork
  | paired found isFork below =>
      cases leads' with
      | single found' _ =>
          obtain ⟨rfl, _⟩ := linked.child?_injective found' below
          rw [noFork] at isFork
          cases isFork
      | paired found' _ below' =>
          obtain ⟨rfl, rfl⟩ := linked.child?_injective below below'
          rw [(linked.child?_injective found found').2]

theorem exists_leads (entry : trie.IsEntry w) (inner : w ≠ Trie.root) :
    ∃ v letter, trie.IsEntry v ∧ trie.Leads v letter w := by
  obtain ⟨node, live⟩ := entry.lives
  obtain ⟨above, hangs⟩ := linked.exists_above live inner
  obtain ⟨key, found⟩ := linked.exists_child? hangs
  cases isFork : trie.isFork above with
  | false =>
      have entry' := isEntry_of_lives (linked.live_above hangs) isFork
      exact ⟨above, .one key, entry', .single found (isFork_of_isEntry entry)⟩
  | true =>
      obtain ⟨v, hangs', entry'⟩ := linked.above_fork isFork
      obtain ⟨action, found'⟩ := linked.exists_child? hangs'
      exact ⟨v, .pair action key, entry', .paired found' isFork found⟩

/-! ## The listing -/

theorem nodup_unsorted (v : Nat) : (trie.unsorted v).Nodup := by
  have places : ∀ v, (trie.children v).Nodup := fun v =>
    (linked.distinct_keys v).imp fun different same => different (congrArg Prod.fst same)
  rw [unsorted, List.nodup_flatMap]
  constructor
  · rintro ⟨key, child⟩ _
    cases isFork : trie.isFork child with
    | true =>
        rw [lettersAt_of_fork isFork]
        refine (places child).map fun one other same => ?_
        simp only [Prod.mk.injEq, Letter.pair.injEq, true_and] at same
        exact Prod.ext same.1 same.2
    | false =>
        rw [lettersAt_of_entry isFork]
        exact List.nodup_singleton _
  · -- Letters from different places differ in their first part.
    refine (linked.distinct_keys v).imp fun {one other} different => ?_
    refine List.disjoint_left.mpr fun place member member' => different ?_
    exact (firstKey_of_mem member).symm.trans (firstKey_of_mem member')

theorem ascending_successors (v : Nat) :
    (trie.successors v).Pairwise fun one other => one.1.Before other.1 := by
  have total : Std.Total fun one other : Letter × Nat => one.1.le other.1 = true :=
    ⟨fun one other => Letter.le_total one.1 other.1⟩
  have trans : IsTrans (Letter × Nat) fun one other => one.1.le other.1 = true :=
    ⟨fun _ _ _ first second => Letter.le_trans first second⟩
  have ordered : (trie.successors v).Pairwise fun one other => one.1.le other.1 = true := by
    rw [successors_eq_insertionSort]
    exact List.pairwise_insertionSort _ _
  have different : (trie.successors v).Nodup := by
    rw [successors_eq_insertionSort]
    exact (List.perm_insertionSort _ _).nodup_iff.mpr (linked.nodup_unsorted v)
  refine (ordered.and different).imp_of_mem fun {one other} member member' both => ?_
  refine Letter.before_of_le both.1 fun same => both.2 ?_
  -- A letter leads to one vertex only.
  have step := (linked.mem_successors_iff.mp member).1
  have step' := (linked.mem_successors_iff.mp member').1
  rw [same] at step
  exact Prod.ext same (Option.some.inj (step.symm.trans step'))

end Linked

/-- How the successors of all entries are listed. -/
structure ListsSuccessors (trie : Trie α) : Prop where
  ascending : ∀ v, trie.IsEntry v →
    (trie.successors v).Pairwise fun one other => one.1.Before other.1
  mem_iff : ∀ v, trie.IsEntry v → ∀ letter w, (letter, w) ∈ trie.successors v ↔
    trie.IsEntry w ∧ trie.successor v letter = .ok w
  predecessor : ∀ v, trie.IsEntry v → ∀ letter w, (letter, w) ∈ trie.successors v →
    trie.predecessor w = .ok v
  once : ∀ w, trie.IsEntry w → w ≠ root → ∃ v, trie.IsEntry v ∧
    ((trie.successors v).map (·.2)).count w = 1 ∧
      ∀ u, trie.IsEntry u → u ≠ v → w ∉ (trie.successors u).map (·.2)

theorem Linked.nodup_successors (linked : trie.Linked) (entry : trie.IsEntry v) :
    ((trie.successors v).map (·.2)).Nodup := by
  rw [List.Nodup, List.pairwise_map]
  refine (linked.ascending_successors v).imp_of_mem fun {one other} member member' ordered => ?_
  intro same
  have leads := linked.mem_successors_iff_leads.mp member
  have leads' := linked.mem_successors_iff_leads.mp member'
  rw [← same] at leads'
  rw [linked.leads_unique leads leads' entry] at ordered
  exact Letter.before_irrefl ordered

theorem Linked.listsSuccessors (linked : trie.Linked) : trie.ListsSuccessors := by
  constructor
  case ascending => exact fun v _ => linked.ascending_successors v
  case mem_iff =>
    intro v entry letter w
    rw [linked.mem_successors_iff_leads, entry.successor_eq_ok_iff]
    constructor
    · intro leads
      exact ⟨linked.isEntry_of_leads leads, (leads_iff.mp leads).1⟩
    · rintro ⟨reached, step⟩
      exact leads_iff.mpr ⟨step, fun _ => isFork_of_isEntry reached⟩
  case predecessor =>
    intro v entry letter w member
    exact linked.predecessor_of_leads (linked.mem_successors_iff_leads.mp member) entry
  case once =>
    intro w reached inner
    obtain ⟨v, letter, entry, leads⟩ := linked.exists_leads reached inner
    have member := linked.mem_map_successors_iff.mpr ⟨letter, leads⟩
    refine ⟨v, entry, List.count_eq_one_of_mem (linked.nodup_successors entry) member, ?_⟩
    intro u entry' other listed
    obtain ⟨letter', leads'⟩ := linked.mem_map_successors_iff.mp listed
    -- An entry has one predecessor.
    have same := (linked.predecessor_of_leads leads' entry').symm.trans
      (linked.predecessor_of_leads leads entry)
    exact other (Except.ok.inj same)

end Trie

end TeamPlanning
