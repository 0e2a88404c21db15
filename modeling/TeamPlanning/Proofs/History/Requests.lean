import TeamPlanning.Proofs.History.Demand
import TeamPlanning.Proofs.History.Reading

/-! # What a team's histories keep under requests

Records made on demand are the only thing that requests change about the histories of a team. Every
other answer is that of the team at the start; and the numbers noted in a record that was made since
are those that the team would have worked out at the start. -/

set_option autoImplicit false

namespace TeamPlanning

variable {c : HistoryKind}

namespace TeamSpace

/-- The team has the histories of the one at the start, with more of their records. -/
structure Continues (space start : TeamSpace c) : Prop where
  alphabets : space.alphabets = start.alphabets
  agents : space.agents = start.agents
  alphabet : space.team.alphabet = start.team.alphabet
  base : space.team.base = start.team.base
  layout : space.team.layout = start.team.layout
  eager : space.team.eager = start.team.eager
  kept : ∀ index record, start.team.record index = .ok record →
    space.team.record index = .ok record
  stageOf : space.team.stageOf = start.team.stageOf
  symbols : space.team.symbols = start.team.symbols
  indexOf : space.team.indexOf = start.team.indexOf
  successor : space.team.successor = start.team.successor
  toIndividual : space.toIndividual = start.toIndividual
  noted : ∀ index, space.notedIndividual index = start.notedIndividual index ∨
    start.notedIndividual index = .error (.notHeld c index) ∧
      space.notedIndividual index = start.toIndividual index

namespace Continues

variable {space middle start : TeamSpace c}

theorem refl (space : TeamSpace c) : space.Continues space where
  alphabets := rfl
  agents := rfl
  alphabet := rfl
  base := rfl
  layout := rfl
  eager := rfl
  kept _ _ held := held
  stageOf := rfl
  symbols := rfl
  indexOf := rfl
  successor := rfl
  toIndividual := rfl
  noted _ := .inl rfl

theorem trans (second : space.Continues middle) (first : middle.Continues start) :
    space.Continues start where
  alphabets := second.alphabets.trans first.alphabets
  agents := second.agents.trans first.agents
  alphabet := second.alphabet.trans first.alphabet
  base := second.base.trans first.base
  layout := second.layout.trans first.layout
  eager := second.eager.trans first.eager
  kept index record held := second.kept index record (first.kept index record held)
  stageOf := second.stageOf.trans first.stageOf
  symbols := second.symbols.trans first.symbols
  indexOf := second.indexOf.trans first.indexOf
  successor := second.successor.trans first.successor
  toIndividual := second.toIndividual.trans first.toIndividual
  noted index := by
    rcases first.noted index with same | ⟨absent, made⟩
    · rw [← same, ← first.toIndividual]
      exact second.noted index
    · refine .inr ⟨absent, ?_⟩
      rcases second.noted index with same | ⟨_, later⟩
      · exact same.trans made
      · rw [later, first.toIndividual]

theorem total (continues : space.Continues start) : space.team.total = start.team.total := by
  rw [HistorySpace.total, HistorySpace.total, continues.layout]

end Continues

section Charted

variable {space start : TeamSpace c} {roster : Roster c} {index : Nat}

/-- What is noted of a history that exists: its own histories, or that its record is not held. -/
theorem Charted.notedIndividual_eq (charted : space.Charted roster)
    (inside : index < roster.team.total) :
    space.team.Holds index ∧ space.notedIndividual index = .ok (roster.individual index) ∨
      ¬ space.team.Holds index ∧ space.notedIndividual index = .error (.notHeld c index) := by
  by_cases held : space.team.Holds index
  · obtain ⟨v, found⟩ := held
    obtain ⟨_, rfl, record⟩ := charted.team.record_of_vertex? found
    exact .inl ⟨⟨v, found⟩, bind_of_eq_ok record _⟩
  · have record := charted.team.record_of_absent (HistorySpace.Charted.vertex?_of_absent held)
    rw [if_pos inside] at record
    exact .inr ⟨held, bind_of_eq_error record _⟩

/-- Two teams in closed form with the same histories differ in the records held only. -/
theorem Charted.continues (charted : space.Charted roster) (charted' : start.Charted roster)
    (agents : space.agents = start.agents) (lazy : space.team.eager = false)
    (lazy' : start.team.eager = false)
    (kept : ∀ index, start.team.Holds index → space.team.Holds index) :
    space.Continues start := by
  obtain ⟨stageOf, symbols, indexOf, successor⟩ :=
    charted.team.shaped.answers_eq charted'.team.shaped lazy lazy'
  have shaped := charted.team.shaped
  have shaped' := charted'.team.shaped
  constructor
  case alphabets => rw [charted.alphabets, charted'.alphabets]
  case agents => exact agents
  case alphabet => rw [shaped.alphabet, shaped'.alphabet]
  case base => rw [shaped.base, shaped'.base]
  case layout => rw [shaped.layout, shaped'.layout]
  case eager => rw [lazy, lazy']
  case stageOf => exact stageOf
  case symbols => exact symbols
  case indexOf => exact indexOf
  case successor => exact successor
  case kept =>
    intro index record read
    by_cases held : start.team.Holds index
    · -- A record is determined by its history and its note, and both are those of the roster.
      obtain ⟨v, found⟩ := kept index held
      obtain ⟨v', found'⟩ := held
      obtain ⟨_, rfl, known⟩ := charted.team.record_of_vertex? found
      obtain ⟨_, rfl, known'⟩ := charted'.team.record_of_vertex? found'
      rw [known, ← known', read]
    · rw [charted'.team.record_of_absent (HistorySpace.Charted.vertex?_of_absent held)] at read
      cases read
  case toIndividual =>
    funext index
    by_cases inside : index < roster.team.total
    · rw [charted.toIndividual_eq_ok inside, charted'.toIndividual_eq_ok inside]
    · rw [TeamSpace.toIndividual, charted.team.record_of_not_lt inside, TeamSpace.toIndividual,
        charted'.team.record_of_not_lt inside]
  case noted =>
    intro index
    by_cases inside : index < roster.team.total
    · rcases charted'.notedIndividual_eq inside with ⟨held, noted'⟩ | ⟨_, noted'⟩
      · rcases charted.notedIndividual_eq inside with ⟨_, noted⟩ | ⟨absent, _⟩
        · exact .inl (noted.trans noted'.symm)
        · exact absurd (kept index held) absent
      · rcases charted.notedIndividual_eq inside with ⟨_, noted⟩ | ⟨_, noted⟩
        · exact .inr ⟨noted', noted.trans (charted'.toIndividual_eq_ok inside).symm⟩
        · exact .inl (noted.trans noted'.symm)
    · refine .inl ?_
      rw [notedIndividual, charted.team.record_of_not_lt inside, notedIndividual,
        charted'.team.record_of_not_lt inside]

/-- One request: either nothing changes, or the space is in closed form and has grown. -/
theorem Charted.continues_hold (charted : space.Charted roster) (index : Nat) :
    (space.hold index).2.Continues space := by
  have after := charted.hold index
  have inherited := charted.agents.inherited
  rw [← charted.alphabets] at inherited
  rw [TeamSpace.hold] at after ⊢
  by_cases held : space.team.Holds index
  · rw [charted.team.hold_of_holds held]
    exact .refl space
  · by_cases inside : index < roster.team.total
    · have lazy := charted.team.lazy_of_absent (HistorySpace.Charted.vertex?_of_absent held) inside
      obtain ⟨outcome, longer, success, ends⟩ :=
        charted.team.hold_of_absent inherited held inside
      have grown : longer.eager = false ∧ ∀ index, space.team.Holds index → longer.Holds index := by
        rcases ends with ⟨_, _, _, _, _, _, _, grown, _⟩ | ⟨_, grown⟩
        all_goals exact ⟨grown.lazy, fun index held => (grown.holds index).mpr (.inl held)⟩
      rw [success] at after ⊢
      exact after.continues charted rfl grown.1 lazy grown.2
    · obtain ⟨cause, failed⟩ := charted.team.hold_of_beyond inside
        fun individual _ symbol => extendIndividual space.agents space.alphabets individual symbol
      rw [failed]
      exact .refl space

end Charted

namespace Intact

variable {space : TeamSpace .actionObservation} {alphabets : List Alphabet} {horizon : Nat}

theorem continues_hold (intact : space.Intact alphabets horizon) (index : Nat) :
    (space.hold index).2.Continues space := by
  obtain ⟨_, barren | ⟨roster, rfl, charted⟩⟩ := intact
  · have same : (space.hold index).2 = space := by
      rw [TeamSpace.hold]
      simp only [barren.hold index]
    rw [same]
    exact .refl space
  · exact charted.continues_hold index

/-- Requests, one after the other, change nothing but the records held. -/
theorem continues_holdAll (intact : space.Intact alphabets horizon) (requests : List Nat) :
    (space.holdAll requests).Continues space := by
  induction requests generalizing space with
  | nil => exact .refl space
  | cons index requests ih => exact (ih (intact.hold index)).trans (intact.continues_hold index)

end Intact

end TeamSpace

end TeamPlanning
