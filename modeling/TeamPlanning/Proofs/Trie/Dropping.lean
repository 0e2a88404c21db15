import TeamPlanning.Proofs.Trie.Queries

/-! # What erasing a vertex changes

Erasing a vertex is one cut: at the vertex, or at the fork above it if nothing else hangs there. All
that hangs from the cut is gone. One edge is closed, and every other letter from a vertex that stays
leads where it led. -/

set_option autoImplicit false

namespace TeamPlanning.Trie

variable {α : Type} {trie before after : Trie α} {v u w top : Nat} {letter : Letter}

/-- What goes with a vertex: it and all that hangs from it, and the fork that this empties. -/
def Doomed (trie : Trie α) (v u : Nat) : Prop :=
  Relation.ReflTransGen trie.Edge v u ∨ trie.SoleFork u v

/-! ## The place of the cut -/

theorem SoleFork.above (sole : trie.SoleFork u v) (linked : trie.Linked) :
    trie.above? v = some u := linked.edge_iff.mp sole.edge

theorem SoleFork.climbs_iff {fork : Nat} (sole : trie.SoleFork fork v) (linked : trie.Linked) :
    trie.Climbs u fork ↔ u = fork ∨ trie.Climbs u v := by
  constructor
  · intro climbs
    rcases Relation.ReflTransGen.cases_tail climbs with same | ⟨child, further, hangs⟩
    · exact .inl same.symm
    · rw [← sole.only child (linked.edge_iff.mpr hangs)]
      exact .inr further
  · rintro (rfl | climbs)
    · exact .refl
    · exact climbs.tail (sole.above linked)

/-- The fork that a cut leaves empty may be cut off instead. -/
theorem Cut.at_sole {middle : Trie α} {fork : Nat} (cut : before.Cut v middle)
    (linked : before.Linked) (sole : before.SoleFork fork v) (empty : middle.children fork = [])
    (cutFork : middle.Cut fork after) : before.Cut fork after where
  tidy := cutFork.tidy
  gone := by
    intro u climbs
    by_cases further : middle.Climbs u fork
    · exact cutFork.gone u further
    · rcases (sole.climbs_iff linked).mp climbs with rfl | climbs
      · exact absurd .refl further
      · rw [cutFork.kept u further, cut.gone u climbs, Option.map_none]
  kept := by
    intro u stays
    rw [sole.climbs_iff linked, not_or] at stays
    have middleLinked := cut.linked linked (linked.ne_root_of_above? (sole.above linked))
    have further : ¬ middle.Climbs u fork := fun climbs =>
      stays.1 ((middleLinked.climbs_iff_of_empty empty).mp climbs)
    rw [cutFork.kept u further, cut.kept u stays.2]
    cases live : before.node? u with
    | none => rfl
    | some node =>
        -- Only the fork had the vertex among its children.
        have elsewhere : before.above? v ≠ some u := by
          rw [sole.above linked]
          exact fun same => stays.1 (Option.some.inj same).symm
        rw [Option.map_some, Option.map_some, Option.map_some,
          linked.filter_children_eq elsewhere live]

theorem Erased.exists_cut (erased : before.Erased v after) (linked : before.Linked)
    (hangs : ∃ above, before.above? v = some above) : ∃ top, before.Cut top after ∧
      (∃ above, before.above? top = some above) ∧
        (top = v ∧ (∀ fork, ¬ before.SoleFork fork v) ∨ before.SoleFork top v) := by
  cases erased with
  | one cut filled =>
      refine ⟨v, cut, hangs, .inl ⟨rfl, fun fork sole => ?_⟩⟩
      have above := sole.above linked
      have isFork : after.isFork fork = true := by
        rw [cut.isFork_eq (linked.not_climbs_above above)]
        exact sole.isFork
      obtain ⟨place, places, listed⟩ := List.exists_cons_of_ne_nil (filled fork above isFork)
      have member : place ∈ after.children fork := by
        rw [listed]
        exact List.mem_cons_self
      obtain ⟨_, member, other⟩ := cut.mem_children_iff.mp member
      exact other (sole.only place.2 ⟨place.1, member⟩)
  | @both fork middle cut above isFork empty cutFork =>
      have sole : before.SoleFork fork v := by
        refine ⟨isFork, linked.edge_iff.mpr above, ?_⟩
        rintro u ⟨key, member⟩
        by_contra other
        have stays := cut.mem_children_iff.mpr
          ⟨linked.not_climbs_above above, member, other⟩
        rw [empty] at stays
        cases stays
      obtain ⟨further, hangs', _⟩ := linked.above_fork isFork
      exact ⟨fork, cut.at_sole linked sole empty cutFork, ⟨further, hangs'⟩, .inr sole⟩

theorem doomed_iff_climbs (linked : trie.Linked)
    (cutAt : top = v ∧ (∀ fork, ¬ trie.SoleFork fork v) ∨ trie.SoleFork top v) :
    trie.Doomed v u ↔ trie.Climbs u top := by
  rw [Doomed, linked.reflTransGen_edge_iff]
  rcases cutAt with ⟨rfl, none⟩ | sole
  · exact or_iff_left (none u)
  · rw [sole.climbs_iff linked, or_comm]
    refine or_congr_left ⟨fun sole' => ?_, fun same => same ▸ sole⟩
    exact Option.some.inj ((sole'.above linked).symm.trans (sole.above linked))

/-! ## What a cut leaves -/

namespace Cut

variable (cut : before.Cut top after)
include cut

theorem lives_iff (u : Nat) : after.Lives u ↔ before.Lives u ∧ ¬ before.Climbs u top := by
  constructor
  · rintro ⟨node, live⟩
    obtain ⟨stays, old, earlier, _⟩ := cut.node_cases live
    exact ⟨⟨old, earlier⟩, stays⟩
  · rintro ⟨⟨node, live⟩, stays⟩
    exact ⟨_, cut.kept_node stays live⟩

theorem above?_eq (stays : ¬ before.Climbs u top) : after.above? u = before.above? u := by
  rw [above?, above?, cut.kept u stays]
  cases before.node? u <;> rfl

theorem keeps (stays : ¬ before.Climbs u top) : before.Keeps after u where
  vertex := vertex_congr (cut.held?_eq stays)
  predecessor := by
    refine predecessor_congr (cut.held?_eq stays) (cut.above?_eq stays) fun parent hangs => ?_
    have stays' : ¬ before.Climbs parent top := fun climbs => stays (.head hangs climbs)
    exact ⟨cut.held?_eq stays', cut.above?_eq stays'⟩

variable (linked : before.Linked)
include linked

/-- An edge stays if both its ends stay. -/
theorem child?_eq_some_iff_stays {key : Nat} : after.child? u key = some w ↔
    before.child? u key = some w ∧ ¬ before.Climbs u top ∧ ¬ before.Climbs w top := by
  rw [cut.child?_eq_some_iff linked]
  constructor
  · rintro ⟨stays, found, other⟩
    exact ⟨found, stays, fun climbs => stays (climbs.of_ne other (linked.above?_of_child? found))⟩
  · rintro ⟨found, stays, stays'⟩
    refine ⟨stays, found, ?_⟩
    rintro rfl
    exact stays' .refl

theorem step?_eq_some_iff : after.step? u letter = some w ↔
    before.step? u letter = some w ∧ ¬ before.Climbs u top ∧ ¬ before.Climbs w top := by
  cases letter with
  | one key => exact cut.child?_eq_some_iff_stays linked
  | pair action observation =>
      simp only [step?, Option.bind_eq_some_iff, Option.ite_none_right_eq_some,
        cut.child?_eq_some_iff_stays linked]
      constructor
      · rintro ⟨fork, ⟨found, stays, stays'⟩, isFork, found', _, stays''⟩
        rw [cut.isFork_eq stays'] at isFork
        exact ⟨⟨fork, found, isFork, found'⟩, stays, stays''⟩
      · rintro ⟨⟨fork, found, isFork, found'⟩, stays, stays''⟩
        have stays' : ¬ before.Climbs fork top := fun climbs =>
          stays'' (.head (linked.above?_of_child? found') climbs)
        exact ⟨fork, ⟨found, stays, stays'⟩, by rwa [cut.isFork_eq stays'], found', stays', stays''⟩

theorem step?_eq_of_stays (letter : Letter) (stays : ¬ before.Climbs u top)
    (stays' : ∀ w, before.step? u letter = some w → ¬ before.Climbs w top) :
    after.step? u letter = before.step? u letter := by
  refine Option.ext fun w => ?_
  rw [cut.step?_eq_some_iff linked]
  exact ⟨And.left, fun step => ⟨step, stays, stays' w step⟩⟩

theorem one_edge {above : Nat} (hangs : before.above? top = some above) : ∃! place : Nat × Nat,
    after.Lives place.1 ∧ after.child? place.1 place.2 ≠ before.child? place.1 place.2 := by
  obtain ⟨key, member⟩ := linked.above?_eq_some_iff.mp hangs
  have found := linked.child?_eq_some_iff.mpr member
  refine ⟨(above, key), ⟨?_, ?_⟩, ?_⟩
  · exact (cut.lives_iff above).mpr ⟨linked.live_above hangs, linked.not_climbs_above hangs⟩
  · rw [found]
    exact fun stays => ((cut.child?_eq_some_iff_stays linked).mp stays).2.2 .refl
  · rintro ⟨u, key'⟩ ⟨lives, differs⟩
    have stays := ((cut.lives_iff u).mp lives).2
    -- An edge that is closed leads from what stays to what goes, and so to the place of the cut.
    obtain ⟨w, found', goes⟩ : ∃ w, before.child? u key' = some w ∧ before.Climbs w top := by
      by_contra none
      exact differs (cut.step?_eq_of_stays linked (.one key') stays fun w found climbs =>
        none ⟨w, found, climbs⟩)
    have same : w = top := by
      by_contra other
      exact stays (goes.of_ne other (linked.above?_of_child? found'))
    subst same
    obtain ⟨rfl, rfl⟩ := linked.child?_injective found' found
    rfl

/-- What leads from what stays to what goes: a letter to the place of the cut, or a pair through it. -/
theorem lost_step (stays : ¬ before.Climbs u top) (step : before.step? u letter = some w)
    (goes : before.Climbs w top) : w = top ∨ before.isFork top = true ∧ before.Edge top w := by
  cases letter with
  | one key =>
      by_contra other
      rw [not_or] at other
      exact stays (goes.of_ne other.1 (linked.above?_of_child? step))
  | pair action observation =>
      obtain ⟨fork, found, step⟩ := Option.bind_eq_some_iff.mp step
      split at step
      · rename_i isFork
        by_cases same : w = top
        · exact .inl same
        · have climbs := goes.of_ne same (linked.above?_of_child? step)
          have top_eq : fork = top := by
            by_contra other
            exact stays (climbs.of_ne other (linked.above?_of_child? found))
          subst top_eq
          exact .inr ⟨isFork, linked.edge_iff.mpr (linked.above?_of_child? step)⟩
      · cases step

end Cut

/-! ## All that erasing does -/

/-- The tree after a vertex was erased. -/
structure Dropped (before : Trie α) (v : Nat) (after : Trie α) : Prop where
  lives : ∀ u, after.Lives u ↔ before.Lives u ∧ ¬ before.Doomed v u
  kept : ∀ u, after.Lives u → before.Keeps after u
  no_new_edge : ∀ u key w, after.child? u key = some w → before.child? u key = some w
  one_edge : ∃! place : Nat × Nat,
    after.Lives place.1 ∧ after.child? place.1 place.2 ≠ before.child? place.1 place.2
  steps_kept : ∀ u letter, after.Lives u →
    (∀ w, before.successor u letter = .ok w → ¬ before.Doomed v w) →
      after.successor u letter = before.successor u letter
  steps_lost : ∀ u letter w, after.Lives u → before.successor u letter = .ok w →
    before.Doomed v w →
      after.successor u letter = .error (.missing (.vertex (.noSuccessor u letter))) ∧
        (w = v ∨ before.SoleFork w v ∨ before.isFork v = true ∧ before.Edge v w)
  listed : ∀ u letter w, after.Lives u → ((letter, w) ∈ after.successors u ↔
    (letter, w) ∈ before.successors u ∧ ¬ before.Doomed v w)

theorem Erased.dropped (erased : before.Erased v after) (linked : before.Linked)
    (hangs : ∃ above, before.above? v = some above) : before.Dropped v after := by
  obtain ⟨top, cut, ⟨above, hangs⟩, cutAt⟩ := erased.exists_cut linked hangs
  have doomed : ∀ u, before.Doomed v u ↔ before.Climbs u top := fun u =>
    doomed_iff_climbs linked cutAt
  have stays : ∀ u, after.Lives u → ¬ before.Climbs u top := fun u lives =>
    ((cut.lives_iff u).mp lives).2
  constructor
  case lives =>
    intro u
    rw [doomed, cut.lives_iff]
  case kept => exact fun u lives => cut.keeps (stays u lives)
  case no_new_edge =>
    exact fun u key w found => ((cut.child?_eq_some_iff_stays linked).mp found).1
  case one_edge => exact cut.one_edge linked hangs
  case steps_kept =>
    intro u letter lives spared
    refine successor_congr (cut.held?_eq (stays u lives)) fun isFork => ?_
    have entry := isEntry_of_lives ((cut.lives_iff u).mp lives).1 isFork
    refine cut.step?_eq_of_stays linked letter (stays u lives) fun w step => ?_
    rw [← doomed]
    exact spared w (entry.successor_eq_ok_iff.mpr step)
  case steps_lost =>
    intro u letter w lives success goes
    obtain ⟨entry, step⟩ := successor_cases success
    rw [doomed] at goes
    constructor
    · refine (cut.isEntry (stays u lives) entry).successor_eq_error ?_
      rw [Option.eq_none_iff_forall_ne_some]
      intro w' step'
      obtain ⟨earlier, _, stays'⟩ := (cut.step?_eq_some_iff linked).mp step'
      rw [step] at earlier
      exact stays' (Option.some.inj earlier ▸ goes)
    · rcases cutAt with ⟨rfl, _⟩ | sole
      · exact (cut.lost_step linked (stays u lives) step goes).imp_right .inr
      · rcases cut.lost_step linked (stays u lives) step goes with rfl | ⟨_, edge⟩
        · exact .inr (.inl sole)
        · exact .inl (sole.only w edge)
  case listed =>
    intro u letter w lives
    rw [(cut.linked linked (linked.ne_root_of_above? hangs)).mem_successors_iff,
      linked.mem_successors_iff, cut.step?_eq_some_iff linked, doomed]
    constructor
    · rintro ⟨⟨step, _, stays'⟩, single⟩
      rw [cut.isFork_eq stays'] at single
      exact ⟨⟨step, single⟩, stays'⟩
    · rintro ⟨⟨step, single⟩, stays'⟩
      rw [cut.isFork_eq stays']
      exact ⟨⟨step, stays u lives, stays'⟩, single⟩

end TeamPlanning.Trie
