import TeamPlanning.Proofs.History.Splitting
import TeamPlanning.Proofs.Planner.Cache
import TeamPlanning.Proofs.Planner.Queries

/-! # Upkeep of planners

A planner is requested to replace one of its inputs or to hold a record. Requests may fail at any
point; whatever became of them, the workspace is the one that the inputs call for, with the records
held since, or there is none. So no answer is left over from earlier inputs. -/

set_option autoImplicit false

namespace TeamPlanning

/-- What a planner works from. -/
structure Inputs (W : Type) where
  process : DecisionProcess W
  horizon : Horizon
  settings : Settings

namespace Planner

/-- A request that changes a planner. -/
inductive Request (W : Type) where
  | setProcess (process : DecisionProcess W)
  | setHorizon (horizon : Horizon)
  | setSettings (settings : Settings)
  | hold (index : Nat)

def Request.Sets {W : Type} : Request W → Prop
  | .hold _ => False
  | _ => True

def inputs {W : Type} (planner : Planner W) : Inputs W :=
  ⟨planner.process, planner.horizon, planner.settings⟩

end Planner

namespace Inputs

variable {W : Type}

/-- Settings are taken only if they pass their check; a process and a horizon are taken anyway. -/
def after (inputs : Inputs W) : Planner.Request W → Inputs W
  | .setProcess process => { inputs with process }
  | .setHorizon horizon => { inputs with horizon }
  | .setSettings settings =>
      match settings.validate with
      | .ok () => { inputs with settings }
      | .error _ => inputs
  | .hold _ => inputs

def idle (inputs : Inputs W) : Planner W :=
  ⟨inputs.process, inputs.horizon, inputs.settings, none⟩

def create [Weight W] (inputs : Inputs W) : Except Fault (Planner W) :=
  Planner.create inputs.process inputs.horizon inputs.settings

end Inputs

namespace Planner

variable {W : Type} {planner fresh : Planner W} {inputs : Inputs W}

def holdAll (planner : Planner W) (indices : List Nat) : Planner W :=
  indices.foldl (fun planner index => (planner.hold index).2) planner

theorem inputs_hold (planner : Planner W) (index : Nat) :
    (planner.hold index).2.inputs = planner.inputs := by
  rw [hold]
  cases planner.workspace? <;> rfl

theorem hold_of_absent (absent : planner.workspace? = none) (index : Nat) :
    (planner.hold index).2 = planner := by
  rw [hold, absent]

theorem holdAll_of_absent (absent : planner.workspace? = none) (indices : List Nat) :
    planner.holdAll indices = planner := by
  induction indices with
  | nil => rfl
  | cons index indices ih =>
      have split : planner.holdAll (index :: indices) = (planner.hold index).2.holdAll indices :=
        rfl
      rw [split, hold_of_absent absent, ih]

theorem holdAll_of_workspace {workspace : Workspace W}
    (built : planner.workspace? = some workspace) (indices : List Nat) :
    planner.holdAll indices = { planner with workspace? := some { workspace with
      actionObservation := workspace.actionObservation.holdAll indices } } := by
  induction indices generalizing planner workspace with
  | nil =>
      cases planner
      cases built
      rfl
  | cons index indices ih =>
      have first : (planner.hold index).2 = { planner with workspace? := some { workspace with
          actionObservation := (workspace.actionObservation.hold index).2 } } := by
        rw [hold, built]
      have split : planner.holdAll (index :: indices) = (planner.hold index).2.holdAll indices :=
        rfl
      rw [split, first, ih rfl]
      rfl

variable [Weight W]

theorem inputs_of_create (made : inputs.create = .ok fresh) : fresh.inputs = inputs := by
  obtain ⟨workspace?, _, made⟩ := bind_eq_ok_iff.mp made
  cases made
  rfl

/-- A workspace that was built comes from a finite horizon, with its joint histories intact. -/
theorem exists_intact_of_create {workspace : Workspace W} (made : inputs.create = .ok fresh)
    (built : fresh.workspace? = some workspace) :
    ∃ stages, workspace.actionObservation.Intact fresh.process.alphabets stages := by
  obtain ⟨workspace?, demanded, made⟩ := bind_eq_ok_iff.mp made
  cases made
  obtain ⟨process, horizon, settings⟩ := inputs
  cases horizon with
  | infinite =>
      obtain ⟨_, _, nothing⟩ := bind_eq_ok_iff.mp demanded
      cases nothing
      cases built
  | finite stages =>
      obtain ⟨workspace', ready⟩ := Ready.of_demanded demanded
      obtain rfl : workspace' = workspace := Option.some.inj (ready.built.symm.trans built)
      exact ⟨stages, ready.intact⟩

theorem continues_holdAll (made : inputs.create = .ok fresh) (indices : List Nat) :
    (fresh.holdAll indices).Continues fresh := by
  cases built : fresh.workspace? with
  | none =>
      rw [holdAll_of_absent built]
      refine ⟨rfl, rfl, rfl, ?_⟩
      rw [built]
      exact .none
  | some workspace =>
      obtain ⟨stages, intact⟩ := exists_intact_of_create made built
      rw [holdAll_of_workspace built]
      refine ⟨rfl, rfl, rfl, ?_⟩
      rw [built]
      exact .some ⟨rfl, rfl, intact.continues_holdAll indices, rfl⟩

/-! ## One request -/

def serve (planner : Planner W) : Request W → Except Fault Unit × Planner W
  | .setProcess process => planner.setProcess process
  | .setHorizon horizon => planner.setHorizon horizon
  | .setSettings settings => planner.setSettings settings
  | .hold index => ((planner.hold index).1.map fun _ => (), (planner.hold index).2)

/-- All that a request can do: an input is replaced, and everything is built anew or nothing can be
built; settings are turned down by their check; or a record is asked for. -/
inductive Served (planner : Planner W) : Request W → Except Fault Unit × Planner W → Prop
  | renewed {request : Request W} {fresh : Planner W} (sets : request.Sets)
      (made : (planner.inputs.after request).create = .ok fresh) :
      Served planner request (.ok (), fresh)
  | emptied {request : Request W} {fault : Fault} (sets : request.Sets)
      (failed : (planner.inputs.after request).create = .error fault) :
      Served planner request (.error fault, (planner.inputs.after request).idle)
  | refused {settings : Settings} {fault : Fault} (invalid : settings.validate = .error fault) :
      Served planner (.setSettings settings) (.error fault, planner)
  | held (index : Nat) :
      Served planner (.hold index) ((planner.hold index).1.map fun _ => (), (planner.hold index).2)

theorem refresh_eq (inputs : Inputs W) (workspace? : Option (Workspace W)) :
    (Planner.mk inputs.process inputs.horizon inputs.settings workspace?).refresh =
      match inputs.create with
      | .ok fresh => (.ok (), fresh)
      | .error fault => (.error fault, inputs.idle) := by
  rw [refresh, Inputs.create, create]
  cases Workspace.demanded inputs.process inputs.horizon inputs.settings with
  | error fault => rfl
  | ok workspace? => rfl

/-- A planner in service is a fresh one that was asked for records. -/
theorem Serves.exists_holdAll {process : DecisionProcess W} {stages : Nat} {settings : Settings}
    (serves : Serves process stages settings planner) :
    ∃ fresh requests, create process (.finite stages) settings = .ok fresh ∧
      planner = fresh.holdAll requests := by
  induction serves with
  | created made => exact ⟨_, [], made, rfl⟩
  | @rebuilt workspace? planner made =>
      have renewed := refresh_eq ⟨process, .finite stages, settings⟩ workspace?
      rw [made] at renewed
      cases created : (Inputs.mk process (.finite stages) settings).create with
      | error fault =>
          rw [created] at renewed
          cases renewed
      | ok fresh =>
          rw [created] at renewed
          exact ⟨fresh, [], created, congrArg Prod.snd renewed⟩
  | held index _ ih =>
      obtain ⟨fresh, requests, made, rfl⟩ := ih
      refine ⟨fresh, requests ++ [index], made, ?_⟩
      unfold holdAll
      rw [List.foldl_concat]

/-- A planner in service keeps, kind by kind, a team that was created for its inputs and asked for
records since. -/
theorem Serves.exists_teams {process : DecisionProcess W} {stages : Nat} {settings : Settings}
    (serves : Serves process stages settings planner) :
    ∃ workspace, planner.workspace? = some workspace ∧ planner.horizon = .finite stages ∧
      1 ≤ stages ∧ ∀ c, ∃ (start : TeamSpace c) (requests : List Nat),
        TeamSpace.create process.alphabets stages (settings.individual.get c)
            (settings.joint.get c) = .ok start ∧
          workspace.space c = start.holdAll requests := by
  obtain ⟨fresh, requests, made, rfl⟩ := serves.exists_holdAll
  obtain ⟨workspace?, demanded, made⟩ := bind_eq_ok_iff.mp made
  cases made
  obtain ⟨_, planned, workspace, rfl, built⟩ := demanded_finite.mp demanded
  have each := (build_eq_ok_iff.mp built).1
  rw [holdAll_of_workspace rfl]
  refine ⟨_, rfl, rfl, planned, fun c => ?_⟩
  cases c with
  | observation => exact ⟨_, [], each .observation, rfl⟩
  | action => exact ⟨_, [], each .action, rfl⟩
  | actionObservation => exact ⟨_, requests, each .actionObservation, rfl⟩

/-- A planner in service takes all joint histories apart, whatever their kind. -/
theorem Serves.exists_splits {process : DecisionProcess W} {stages : Nat} {settings : Settings}
    (serves : Serves process stages settings planner) :
    ∃ workspace, planner.workspace? = some workspace ∧ planner.horizon = .finite stages ∧
      ∀ c, (workspace.space c).Splits process.alphabets stages := by
  obtain ⟨workspace, present, finite, planned, teams⟩ := serves.exists_teams
  refine ⟨workspace, present, finite, fun c => ?_⟩
  obtain ⟨start, requests, created, same⟩ := teams c
  rw [same]
  exact TeamSpace.splits_of_create planned created requests

/-- Once an input is replaced, all that counts is whether a planner can be created for the inputs. -/
theorem served_of_refresh (request : Request W) (sets : request.Sets)
    (workspace? : Option (Workspace W)) {served : Except Fault Unit × Planner W}
    (refreshed : served = (Planner.mk (planner.inputs.after request).process
      (planner.inputs.after request).horizon (planner.inputs.after request).settings
      workspace?).refresh) :
    planner.Served request served := by
  rw [refreshed, refresh_eq]
  cases built : (planner.inputs.after request).create with
  | error fault => exact .emptied sets built
  | ok fresh => exact .renewed sets built

theorem served (planner : Planner W) (request : Request W) :
    planner.Served request (planner.serve request) := by
  cases request with
  | setProcess process => exact served_of_refresh (.setProcess process) trivial planner.workspace? rfl
  | setHorizon horizon => exact served_of_refresh (.setHorizon horizon) trivial planner.workspace? rfl
  | hold index => exact .held index
  | setSettings settings =>
      cases checked : settings.validate with
      | error fault =>
          rw [serve, setSettings, checked]
          exact .refused checked
      | ok _ =>
          have taken : planner.inputs.after (.setSettings settings) =
              { planner.inputs with settings } := by
            rw [Inputs.after, checked]
          refine served_of_refresh (.setSettings settings) trivial planner.workspace? ?_
          rw [serve, setSettings, checked, taken]
          rfl

theorem inputs_serve (planner : Planner W) (request : Request W) :
    (planner.serve request).2.inputs = planner.inputs.after request := by
  have step := planner.served request
  generalize planner.serve request = result at step ⊢
  cases step with
  | renewed sets made => exact inputs_of_create made
  | emptied sets failed => rfl
  | refused invalid => rw [Inputs.after, invalid]
  | held index => exact inputs_hold planner index

/-! ## Any requests -/

/-- The planner after requests, one after the other, whether they succeed or fail. -/
def serveAll (planner : Planner W) (requests : List (Request W)) : Planner W :=
  requests.foldl (fun planner request => (planner.serve request).2) planner

/-- The workspace is what the current inputs call for, up to the records held since. -/
structure Current (planner : Planner W) : Prop where
  created : ∀ fresh, planner.inputs.create = .ok fresh →
    ∃ indices, planner = fresh.holdAll indices
  refused : ∀ fault, planner.inputs.create = .error fault → planner.workspace? = none

theorem Current.of_create (made : inputs.create = .ok fresh) : fresh.Current := by
  have same := inputs_of_create made
  constructor
  · intro other made'
    rw [same, made] at made'
    cases made'
    exact ⟨[], rfl⟩
  · intro fault failed
    rw [same, made] at failed
    cases failed

theorem Current.serve (current : planner.Current) (request : Request W) :
    (planner.serve request).2.Current := by
  have step := planner.served request
  generalize planner.serve request = result at step ⊢
  cases step with
  | renewed sets made => exact .of_create made
  | refused invalid => exact current
  | emptied sets failed =>
      refine ⟨fun fresh made => ?_, fun _ _ => rfl⟩
      have failed : (planner.inputs.after request).idle.inputs.create = .error _ := failed
      rw [failed] at made
      cases made
  | held index =>
      have same := inputs_hold planner index
      constructor
      · intro fresh made
        rw [same] at made
        obtain ⟨indices, rfl⟩ := current.created fresh made
        -- The planner is still the fresh one, with one request for a record more.
        refine ⟨indices ++ [index], ?_⟩
        rw [holdAll, holdAll, List.foldl_append]
        rfl
      · intro fault failed
        rw [same] at failed
        have absent := current.refused fault failed
        rw [hold_of_absent absent]
        exact absent

/-- No answer of the planner is left over from earlier inputs: without a workspace there are none,
and with one the answers are those of a planner newly created for the same inputs. -/
structure UpToDate (planner : Planner W) : Prop extends Current planner where
  absent : planner.workspace? = none →
    (∀ {α : Type} (query : Query W α), query.NeedsWorkspace planner.process →
      ∃ cause, planner.answer query = .error (.meaningless cause)) ∧
      ∀ c index, ∃ cause, planner.notedIndividual c index = .error (.meaningless cause)
  continues : ∀ fresh, planner.inputs.create = .ok fresh → planner.Continues fresh
  answers : ∀ fresh, planner.inputs.create = .ok fresh →
    ∀ {α : Type} (query : Query W α), planner.answer query = fresh.answer query
  noted : ∀ fresh, planner.inputs.create = .ok fresh → ∀ c index,
    planner.notedIndividual c index = fresh.notedIndividual c index ∨
      fresh.notedIndividual c index = .error (.notHeld c index) ∧
        planner.notedIndividual c index = fresh.answer (.history c (.toIndividual index))

theorem Current.upToDate (current : planner.Current) : planner.UpToDate := by
  have continues : ∀ fresh, planner.inputs.create = .ok fresh → planner.Continues fresh := by
    intro fresh made
    obtain ⟨indices, same⟩ := current.created fresh made
    rw [same]
    exact continues_holdAll made indices
  refine { current with absent := ?_, continues, answers := ?_, noted := ?_ }
  · intro absent
    exact ⟨fun query => answer_of_absent absent,
      fun c index => ⟨_, bind_of_eq_error (space_of_absent absent c) _⟩⟩
  · exact fun fresh made => (continues fresh made).answer
  · exact fun fresh made => (continues fresh made).notedIndividual

theorem serveAll_keeps (current : planner.Current) (requests : List (Request W)) :
    (planner.serveAll requests).Current ∧
      (planner.serveAll requests).inputs = requests.foldl Inputs.after planner.inputs := by
  induction requests generalizing planner with
  | nil => exact ⟨current, rfl⟩
  | cons request requests ih =>
      rw [List.foldl_cons, ← inputs_serve planner request]
      exact ih (current.serve request)

/-- Whatever is requested of a planner, its workspace follows from the inputs that were accepted
last. Where a request to replace an input succeeds, the planner is the one that would be created for
the new inputs. -/
theorem serveAll_upToDate {process : DecisionProcess W} {horizon : Horizon} {settings : Settings}
    (made : create process horizon settings = .ok planner) (requests : List (Request W)) :
    (planner.serveAll requests).inputs = requests.foldl Inputs.after ⟨process, horizon, settings⟩ ∧
      (planner.serveAll requests).UpToDate ∧
        ∀ request : Request W, request.Sets →
          ((planner.serveAll requests).serve request).1 = .ok () →
            ((planner.serveAll requests).serve request).2.inputs.create =
              .ok ((planner.serveAll requests).serve request).2 := by
  have made : (Inputs.mk process horizon settings).create = .ok planner := made
  obtain ⟨current, reached⟩ := serveAll_keeps (.of_create made) requests
  rw [inputs_of_create made] at reached
  refine ⟨reached, current.upToDate, fun request sets success => ?_⟩
  have step := (planner.serveAll requests).served request
  generalize (planner.serveAll requests).serve request = result at step success ⊢
  cases step with
  | renewed sets made =>
      rw [inputs_of_create made]
      exact made
  | emptied sets failed => cases success
  | refused invalid => cases success
  | held index => cases sets

/-- A horizon without stages, settings that fail their check, the horizon of the start again, and a
record on demand: the workspace is lost on the way, and at the end every answer is as at the start. -/
theorem serveAll_upToDate_steady :
    ∃ planner : Planner Rat, create .steady (.finite 2) .nothing = .ok planner ∧
      (planner.serveAll [.setHorizon (.finite 0)]).workspace? = none ∧
        ∀ {α : Type} (query : Query Rat α),
          (planner.serveAll [.setHorizon (.finite 0),
            .setSettings (Settings.nothing.keeping false true), .setHorizon (.finite 2),
            .hold 1]).answer query = planner.answer query := by
  obtain ⟨planner, made⟩ : ∃ planner : Planner Rat,
      create .steady (.finite 2) .nothing = .ok planner := by
    apply exists_of_isOk
    decide +kernel
  refine ⟨planner, made, ?_, fun query => ?_⟩
  · obtain ⟨reached, upToDate, _⟩ := serveAll_upToDate made [.setHorizon (.finite 0)]
    refine upToDate.refused (.unsound .emptyHorizon) ?_
    rw [reached]
    rfl
  · obtain ⟨reached, upToDate, _⟩ := serveAll_upToDate made [.setHorizon (.finite 0),
      .setSettings (Settings.nothing.keeping false true), .setHorizon (.finite 2), .hold 1]
    refine upToDate.answers planner ?_ query
    rw [reached]
    exact made

end Planner

end TeamPlanning
