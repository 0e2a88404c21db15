import Mathlib.Algebra.BigOperators.Fin
import TeamPlanning.Proofs.JointSymbols

/-! # Joint numbers and their parts

A joint number splits exactly if there are that many choices of parts, even where there are more of
them than machine words; parts join exactly if the joint number is a machine word. Where both
answer they undo each other, for plain numbers and for the symbols of every kind. -/

set_option autoImplicit false

namespace TeamPlanning

open scoped BigOperators

namespace Radix

/-- The value of a choice of parts, agent by agent: each part counts once for every choice of the
agents after it. -/
theorem value_zip_eq_sum {individual sizes : List Nat}
    (matched : individual.length = sizes.length) :
    value (individual.zip sizes) =
      ∑ agent : Fin individual.length, individual.get agent * (sizes.drop (agent + 1)).prod := by
  induction individual generalizing sizes with
  | nil => rfl
  | cons index individual ih =>
      cases sizes with
      | nil => cases matched
      | cons size sizes =>
          have matched := Nat.succ.inj matched
          refine Eq.trans ?_ (Fin.sum_univ_succ _).symm
          rw [List.zip_cons_cons, value_cons, volume_zip matched, ih matched]
          rfl

/-- How joint indices and the agents' own indices stand for each other. -/
structure NumbersChoices (sizes : List Nat) : Prop where
  toIndividual_isOk_iff : ∀ joint,
    (∃ individual, toIndividual joint sizes = .ok individual) ↔ joint < sizes.prod
  toJoint_eq_ok_iff : ∀ individual joint, toJoint individual sizes = .ok joint ↔
    List.Forall₂ (· < ·) individual sizes ∧ joint < wordBound ∧
      joint = ∑ agent : Fin individual.length, individual.get agent * (sizes.drop (agent + 1)).prod
  toJoint_toIndividual : ∀ joint individual, joint < wordBound →
    toIndividual joint sizes = .ok individual → toJoint individual sizes = .ok joint
  toIndividual_toJoint : ∀ individual joint, toJoint individual sizes = .ok joint →
    toIndividual joint sizes = .ok individual

theorem numbersChoices (sizes : List Nat) : NumbersChoices sizes := by
  constructor
  case toIndividual_isOk_iff =>
    intro joint
    exact ⟨fun ⟨_, split⟩ => (forall₂_of_toIndividual split).2, toIndividual_of_lt⟩
  case toJoint_eq_ok_iff =>
    intro individual joint
    rw [toJoint_eq_ok_iff, forall₂_lt_iff, and_assoc]
    refine and_congr_right fun matched => and_congr_right fun _ => ?_
    rw [← value_zip_eq_sum matched]
    constructor
    · rintro ⟨fits, rfl⟩
      exact ⟨fits, rfl⟩
    · rintro ⟨fits, rfl⟩
      exact ⟨fits, rfl⟩
  case toJoint_toIndividual =>
    exact fun joint individual small split => toJoint_eq_ok_iff_toIndividual.mpr ⟨split, small⟩
  case toIndividual_toJoint =>
    exact fun individual joint joined => (toJoint_eq_ok_iff_toIndividual.mp joined).1

end Radix

namespace Symbol

/-- How joint symbols and the agents' own symbols stand for each other. -/
structure NumbersParts (c : HistoryKind) (agents : List Alphabet) : Prop where
  parts_isOk_iff : ∀ symbol : Symbol c, (∃ parts, symbol.parts agents = .ok parts) ↔
    symbol.within (Alphabet.product agents) = true
  parts_within : ∀ (symbol : Symbol c) parts, symbol.parts agents = .ok parts →
    PartsWithin parts agents
  ofParts_parts : ∀ (symbol : Symbol c) parts, symbol.within Alphabet.widest = true →
    symbol.parts agents = .ok parts → ofParts parts agents = .ok symbol
  parts_ofParts : ∀ (symbol : Symbol c) parts, ofParts parts agents = .ok symbol →
    symbol.parts agents = .ok parts

theorem numbersParts (c : HistoryKind) (agents : List Alphabet) : NumbersParts c agents where
  parts_isOk_iff := fun _ => within_product_iff.symm
  parts_within := fun _ _ split => partsWithin_of_parts split
  ofParts_parts := fun _ _ small split => ofParts_eq_ok_iff.mpr ⟨split, small⟩
  parts_ofParts := fun _ _ joined => (ofParts_eq_ok_iff.mp joined).1

/-- Whatever the sizes are, splitting and joining accept all that has an answer and undo each
other. -/
theorem split_join_exact :
    (∀ sizes, Radix.NumbersChoices sizes) ∧ ∀ c agents, NumbersParts c agents :=
  ⟨Radix.numbersChoices, numbersParts⟩

/-- Two agents with more choices than there are machine words: the last word is split and joined
again, and the next choice has no number. -/
example : Radix.toIndividual (wordBound - 1) [2 ^ 33, 2 ^ 33] = .ok [2 ^ 31 - 1, 2 ^ 33 - 1] ∧
    Radix.toJoint [2 ^ 31 - 1, 2 ^ 33 - 1] [2 ^ 33, 2 ^ 33] = .ok (wordBound - 1) ∧
    Radix.toJoint [2 ^ 31, 0] [2 ^ 33, 2 ^ 33] =
      .error (.tooLarge (.product (2 ^ 31) (2 ^ 33))) := by
  decide +kernel

end Symbol

end TeamPlanning
