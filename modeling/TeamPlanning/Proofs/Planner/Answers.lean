import TeamPlanning.Planner.Text
import TeamPlanning.Proofs.Planner.Upkeep

/-! # Planners that answer alike

All that can be asked of a planner, and when it makes no difference how observations depend on the
state left behind: if beliefs are updated in the same way, then planners are created alike and give
the same answers. -/

set_option autoImplicit false

namespace TeamPlanning

/-- The settings with observations taken by event or not. -/
def Settings.observing (settings : Settings) (event : Bool) : Settings :=
  { settings with eventObservability := event }

variable {W : Type} [Weight W]

namespace Planner

/-- Nobody who asks can tell the planners apart, whether for histories, beliefs and probabilities, for
the records held, for policies, for texts, or for the numbers of the process. -/
structure SameAnswers (planner other : Planner W) : Prop where
  answer : ∀ {α : Type} (query : Query W α), planner.answer query = other.answer query
  space : planner.space = other.space
  notedIndividual : planner.notedIndividual = other.notedIndividual
  hold : ∀ index, (planner.hold index).1 = (other.hold index).1
  stages : planner.stages = other.stages
  blankBelief : planner.blankBelief = other.blankBelief
  isJointEager : planner.isJointEager = other.isJointEager
  joinPolicies : planner.joinPolicies = other.joinPolicies
  policyGraph : planner.policyGraph = other.policyGraph
  historyText : planner.historyText = other.historyText
  jointHistoryText : planner.jointHistoryText = other.jointHistoryText
  elementText : planner.elementText = other.elementText
  text : planner.text = other.text
  dynamics : planner.process.toDynamics = other.process.toDynamics
  jointActions : planner.process.jointActions = other.process.jointActions
  jointObservations : planner.process.jointObservations = other.process.jointObservations
  individualActions : planner.process.individualActions = other.process.individualActions
  jointAction : planner.process.jointAction = other.process.jointAction
  individualObservations :
    planner.process.individualObservations = other.process.individualObservations
  jointObservation : planner.process.jointObservation = other.process.jointObservation

theorem SameAnswers.refl (planner : Planner W) : planner.SameAnswers planner := by
  constructor <;> intros <;> rfl

end Planner

/-! ## Other observations by event -/

/-- The inputs with other observations by event, taken or not. -/
def Inputs.withEvents (inputs : Inputs W) (eventObservation : Nat → Nat → Nat → Nat → W)
    (event : Bool) : Inputs W :=
  ⟨{ inputs.process with eventObservation }, inputs.horizon, inputs.settings.observing event⟩

/-- The inputs update every belief in the same way as others do. -/
def Inputs.UpdatesAs (inputs other : Inputs W) : Prop :=
  ∀ (belief : Belief W) (jointAction jointObservation : Nat),
    belief.update inputs.process jointAction jointObservation inputs.settings.eventObservability =
      belief.update other.process jointAction jointObservation other.settings.eventObservability

namespace Realization

variable {process process' : DecisionProcess W} {event event' : Bool}

theorem extend_congr (same : ∀ (belief : Belief W) (jointAction jointObservation : Nat),
      belief.update process' jointAction jointObservation event' =
        belief.update process jointAction jointObservation event) :
    extend process' event' = extend process event := by
  funext realization symbol
  cases symbol with
  | actionObservation jointAction jointObservation =>
      simp only [extend, same _ jointAction jointObservation]

theorem stages_congr (same : extend process' event' = extend process event) (alphabet : Alphabet)
    (base further : Nat) (level : List (Realization W)) :
    stages process' event' alphabet base further level =
      stages process event alphabet base further level := by
  induction further generalizing level with
  | zero => rfl
  | succ further ih =>
      have extended : extensions process' event' alphabet base =
          extensions process event alphabet base := by
        funext realization
        rw [extensions, extensions, same]
      rw [stages, stages, ih, extended]

end Realization

namespace Planner

/-- The planner for other observations by event, taken or not, with the same workspace. -/
def withEvents (planner : Planner W) (eventObservation : Nat → Nat → Nat → Nat → W)
    (event : Bool) : Planner W :=
  { planner with
    process := { planner.process with eventObservation }
    settings := planner.settings.observing event }

variable {eventObservation : Nat → Nat → Nat → Nat → W} {event : Bool}

/-- Planners are created or refused alike, with the same workspace. -/
theorem create_withEvents {inputs : Inputs W}
    (same : (inputs.withEvents eventObservation event).UpdatesAs inputs) :
    (inputs.withEvents eventObservation event).create =
      inputs.create.map (·.withEvents eventObservation event) := by
  obtain ⟨process, horizon, settings⟩ := inputs
  have extended := Realization.extend_congr same
  have realized : Workspace.realize { process with eventObservation } (settings.observing event) =
      Workspace.realize process settings := by
    funext space
    exact congrArg (Realizations.ofList settings.cachedBeliefs)
      (Realization.stages_congr extended _ _ _ _)
  have demanded : Workspace.demanded { process with eventObservation } horizon
      (settings.observing event) = Workspace.demanded process horizon settings := by
    simp only [Workspace.demanded, Workspace.build, realized]
    rfl
  simp only [Inputs.create, Inputs.withEvents, create, demanded]
  cases Workspace.demanded process horizon settings <;> rfl

section Answers

variable {planner : Planner W}
  (same : (planner.withEvents eventObservation event).inputs.UpdatesAs planner.inputs)
include same

theorem replay_withEvents : (planner.withEvents eventObservation event).replay = planner.replay := by
  funext belief word
  rw [replay, replay]
  congr 1
  funext belief symbol
  cases symbol with
  | actionObservation jointAction jointObservation =>
      exact congrArg Prod.snd (same belief jointAction jointObservation)

/-- The filter is all in a walk that asks for observations by event. -/
theorem walk_withEvents (policy? : Option (JointPolicy W)) (word : List (Symbol .actionObservation))
    (seen : List Nat) (current : Nat) (belief : Belief W) (p : W) :
    (planner.withEvents eventObservation event).walk policy? word seen current belief p =
      planner.walk policy? word seen current belief p := by
  induction word generalizing seen current belief p with
  | nil => rfl
  | cons symbol word ih =>
      cases symbol with
      | actionObservation jointAction jointObservation =>
          have updated : belief.update (planner.withEvents eventObservation event).process
              jointAction jointObservation
                (planner.withEvents eventObservation event).settings.eventObservability =
              belief.update planner.process jointAction jointObservation
                planner.settings.eventObservability :=
            same belief jointAction jointObservation
          simp only [walk, updated, ih]
          rfl

theorem realizeAfter_withEvents (index predecessor length : Nat)
    (word : List (Symbol .actionObservation)) (policy? : Option (JointPolicy W)) :
    (planner.withEvents eventObservation event).realizeAfter index predecessor length word policy? =
      planner.realizeAfter index predecessor length word policy? := by
  simp only [realizeAfter, walkFrom, walk_withEvents same, replay_withEvents same]
  rfl

theorem realize_withEvents (index predecessor : Nat) (start? : Option (Belief W))
    (policy? : Option (JointPolicy W)) :
    (planner.withEvents eventObservation event).realize index predecessor start? policy? =
      planner.realize index predecessor start? policy? := by
  simp only [realize, realizeFrom, walkFrom, walk_withEvents same, realizeAfter_withEvents same]
  rfl

theorem answer_withEvents {α : Type} (query : Query W α) :
    (planner.withEvents eventObservation event).answer query = planner.answer query := by
  cases query with
  | realize index predecessor start? policy? =>
      exact realize_withEvents same index predecessor start? policy?
  | probability index predecessor start? policy? =>
      simp only [answer, probability, realize_withEvents same]
  | jointBelief index =>
      simp only [answer, jointBelief, realize_withEvents same]
      rfl
  | lastProbability index =>
      simp only [answer, lastProbability, probability, realize_withEvents same]
      rfl
  | _ => rfl

end Answers

end Planner

end TeamPlanning
