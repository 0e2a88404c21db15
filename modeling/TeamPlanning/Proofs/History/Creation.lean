import TeamPlanning.Proofs.History.Team

/-! # Creating teams

A team that is created has a roster, and its spaces follow it in every combination of modes. With a
stage to plan for, the modes do not decide whether a team can be created either. -/

set_option autoImplicit false

namespace TeamPlanning

variable {c : HistoryKind}

/-- A team of agents who each have something to observe and something to do. -/
def Sized (alphabets : List Alphabet) : Prop :=
  ∀ alphabet ∈ alphabets, 1 ≤ alphabet.actions ∧ 1 ≤ alphabet.observations

theorem HistoryKind.base_pos {alphabet : Alphabet} {base : Nat}
    (based : c.base alphabet = .ok base)
    (sized : 1 ≤ alphabet.actions ∧ 1 ≤ alphabet.observations) : 0 < base := by
  cases c with
  | observation =>
      cases based
      exact sized.2
  | action =>
      cases based
      exact sized.1
  | actionObservation =>
      obtain ⟨_, rfl⟩ := Bounded.mul_eq_ok_iff.mp based
      exact Nat.mul_pos sized.1 sized.2

theorem Alphabet.joint_sized {alphabets : List Alphabet} {joint : Alphabet}
    (sized : Sized alphabets) (joined : Alphabet.joint alphabets = .ok joint) :
    1 ≤ joint.actions ∧ 1 ≤ joint.observations := by
  obtain ⟨⟨actions, _⟩, observations, _⟩ := Alphabet.joint_eq_ok joined
  rw [actions, observations]
  constructor
  · refine List.prod_pos_iff_forall_pos_nat.mpr fun count member => ?_
    obtain ⟨alphabet, listed, rfl⟩ := List.mem_map.mp member
    exact (sized alphabet listed).1
  · refine List.prod_pos_iff_forall_pos_nat.mpr fun count member => ?_
    obtain ⟨alphabet, listed, rfl⟩ := List.mem_map.mp member
    exact (sized alphabet listed).2

/-- With symbols for the team, every agent has some. -/
theorem HistoryKind.base_pos_of_joint {alphabets : List Alphabet} {joint : Alphabet} {base : Nat}
    (joined : Alphabet.joint alphabets = .ok joint) (based : c.base joint = .ok base)
    (inhabited : 0 < base) :
    ∀ alphabet ∈ alphabets, ∀ own, c.base alphabet = .ok own → 0 < own := by
  intro alphabet member own ownBased
  obtain ⟨⟨actions, _⟩, observations, _⟩ := Alphabet.joint_eq_ok joined
  have acting : 0 < joint.actions → 0 < alphabet.actions := by
    intro positive
    rw [actions, List.prod_pos_iff_forall_pos_nat] at positive
    exact positive _ (List.mem_map_of_mem member)
  have observing : 0 < joint.observations → 0 < alphabet.observations := by
    intro positive
    rw [observations, List.prod_pos_iff_forall_pos_nat] at positive
    exact positive _ (List.mem_map_of_mem member)
  cases c with
  | observation =>
      cases based
      cases ownBased
      exact observing inhabited
  | action =>
      cases based
      cases ownBased
      exact acting inhabited
  | actionObservation =>
      obtain ⟨_, rfl⟩ := Bounded.mul_eq_ok_iff.mp based
      obtain ⟨_, rfl⟩ := Bounded.mul_eq_ok_iff.mp ownBased
      exact Nat.mul_pos (acting (Nat.pos_of_mul_pos_right inhabited))
        (observing (Nat.pos_of_mul_pos_left inhabited))

/-! ## Numberings of created spaces -/

/-- A created space has a numbering, if its alphabet has symbols at all. -/
theorem HistorySpace.exists_numbering_of_base_pos {ν : Type} {space : HistorySpace c ν}
    {alphabet : Alphabet} {horizon : Nat} {note : ν} {noteOf : ν → Nat → Symbol c → Except Fault ν}
    (inhabited : ∀ base, c.base alphabet = .ok base → 0 < base)
    (created : enumerate alphabet horizon note noteOf = .ok space ∨
      closedForm alphabet horizon note = .ok space) :
    ∃ numbering : Numbering c, numbering.alphabet = alphabet ∧ numbering.horizon = horizon := by
  have based : ∃ base, c.base alphabet = .ok base := by
    rcases created with created | created
    all_goals
      obtain ⟨base, based, _⟩ := bind_eq_ok_iff.mp created
      exact ⟨base, based⟩
  obtain ⟨base, based⟩ := based
  exact exists_numbering based (inhabited base based) created

namespace TeamSpace

variable {roster : Roster c} {alphabets : List Alphabet} {horizon : Nat}
  {eagerIndividual eagerJoint : Bool} {space : TeamSpace c}

theorem created_of_agentSpace {alphabet : Alphabet} {eager : Bool}
    {histories : HistorySpace c Unit}
    (created : agentSpace horizon eager alphabet = .ok histories) :
    HistorySpace.enumerate alphabet horizon () (fun _ _ _ => .ok ()) = .ok histories ∨
      HistorySpace.closedForm alphabet horizon () = .ok histories := by
  cases eager with
  | true => exact .inl created
  | false => exact .inr created

theorem exists_agentSpace (numbering : Numbering c) (planned : 0 < numbering.horizon)
    (eager : Bool) : ∃ histories : HistorySpace c Unit,
      agentSpace numbering.horizon eager numbering.alphabet = .ok histories := by
  cases eager with
  | false =>
      obtain ⟨histories, created, _⟩ := HistorySpace.Charted.closedForm numbering planned
        (fun _ (_ : Unit) => True) trivial
      exact ⟨histories, created⟩
  | true =>
      obtain ⟨histories, created, _⟩ :=
        (HistorySpace.enumerate_meets numbering planned () fun _ _ _ => .ok ()).exists_eq_ok
          fun fault ⟨_, _, _, _, _, _, refused⟩ => by cases refused
      exact ⟨histories, created⟩

theorem exists_numberings {agents : List (HistorySpace c Unit)}
    (inhabited : ∀ alphabet ∈ alphabets, ∀ base, c.base alphabet = .ok base → 0 < base)
    (created : alphabets.mapM (agentSpace horizon eagerIndividual) = .ok agents) :
    ∃ numberings : List (Numbering c), numberings.map (·.alphabet) = alphabets ∧
      ∀ numbering ∈ numberings, numbering.horizon = horizon := by
  have each := mapM_eq_ok_iff.mp created
  clear created
  induction each with
  | nil => exact ⟨[], rfl, by simp⟩
  | cons first _ ih =>
      obtain ⟨inhabited, others⟩ := List.forall_mem_cons.mp inhabited
      obtain ⟨numberings, same, planned⟩ := ih others
      obtain ⟨numbering, rfl, horizon_eq⟩ :=
        HistorySpace.exists_numbering_of_base_pos inhabited (created_of_agentSpace first)
      refine ⟨numbering :: numberings, by rw [List.map_cons, same], ?_⟩
      exact List.forall_mem_cons.mpr ⟨horizon_eq, planned⟩

theorem seated_of_mapM {agents : List (HistorySpace c Unit)} (created : roster.alphabets.mapM
      (agentSpace roster.team.horizon eagerIndividual) = .ok agents) :
    Seated agents roster := by
  have each := mapM_eq_ok_iff.mp created
  rw [Roster.alphabets, List.forall₂_map_left_iff, forall₂_iff_getElem?] at each
  obtain ⟨matched, each⟩ := each
  refine forall₂_iff_getElem?.mpr ⟨matched.symm, ?_⟩
  intro place histories agent present seated
  have built := each place agent histories seated present
  rw [← roster.planned agent (List.mem_of_getElem? seated)] at built
  exact HistorySpace.follows_of_created (created_of_agentSpace built)

/-! ## Rosters of created teams -/

/-- How the team's own space comes about. -/
def Teamed (alphabets : List Alphabet) (horizon : Nat) (agents : List (HistorySpace c Unit))
    (joint : Alphabet) (eager : Bool) (team : HistorySpace c (List Nat)) : Prop :=
  eager = true ∧ HistorySpace.enumerate joint horizon (List.replicate alphabets.length 0)
      (fun individual _ symbol => extendIndividual agents alphabets individual symbol) = .ok team ∨
    eager = false ∧
      HistorySpace.closedForm joint horizon (List.replicate alphabets.length 0) = .ok team

theorem Teamed.created {agents : List (HistorySpace c Unit)} {joint : Alphabet}
    {team : HistorySpace c (List Nat)}
    (teamed : Teamed alphabets horizon agents joint eagerJoint team) :
    HistorySpace.enumerate joint horizon (List.replicate alphabets.length 0)
        (fun individual _ symbol => extendIndividual agents alphabets individual symbol) =
          .ok team ∨
      HistorySpace.closedForm joint horizon (List.replicate alphabets.length 0) = .ok team :=
  teamed.imp And.right And.right

/-- The creation of a team takes the agents' spaces, the joint alphabet and the team's space. -/
theorem create_eq_ok_iff :
    create alphabets horizon eagerIndividual eagerJoint = .ok space ↔
      space.alphabets = alphabets ∧
        alphabets.mapM (agentSpace horizon eagerIndividual) = .ok space.agents ∧
          ∃ joint, Alphabet.joint alphabets = .ok joint ∧
            Teamed alphabets horizon space.agents joint eagerJoint space.team := by
  rw [create]
  cases eagerJoint with
  | true =>
      simp only [bind_eq_ok_iff, ↓reduceIte]
      constructor
      · intro given
        obtain ⟨agents, seated, joint, joined, team, built, made⟩ := given
        cases made
        exact ⟨rfl, seated, joint, joined, .inl ⟨rfl, built⟩⟩
      · intro given
        rcases given with ⟨rfl, seated, joint, joined, ⟨_, built⟩ | ⟨lazy, _⟩⟩
        · exact ⟨_, seated, joint, joined, _, built, rfl⟩
        · cases lazy
  | false =>
      simp only [bind_eq_ok_iff, Bool.false_eq_true, ↓reduceIte]
      constructor
      · intro given
        obtain ⟨agents, seated, joint, joined, team, built, made⟩ := given
        cases made
        exact ⟨rfl, seated, joint, joined, .inr ⟨rfl, built⟩⟩
      · intro given
        rcases given with ⟨rfl, seated, joint, joined, ⟨eager, _⟩ | ⟨_, built⟩⟩
        · cases eager
        · exact ⟨_, seated, joint, joined, _, built, rfl⟩

/-- The numberings behind a created team belong to a roster, if there are joint symbols at all. -/
theorem exists_roster_of_joint_base {joint : Alphabet} {base : Nat}
    (joined : Alphabet.joint alphabets = .ok joint) (based : c.base joint = .ok base)
    (inhabited : 0 < base)
    (created : create alphabets horizon eagerIndividual eagerJoint = .ok space) :
    ∃ roster : Roster c, roster.alphabets = alphabets ∧ roster.team.horizon = horizon := by
  obtain ⟨_, seated, joint', joined', teamed⟩ := create_eq_ok_iff.mp created
  obtain rfl : joint = joint' := Except.ok.inj (joined.symm.trans joined')
  obtain ⟨numberings, same, planned⟩ :=
    exists_numberings (HistoryKind.base_pos_of_joint joined based inhabited) seated
  have whole : ∀ base', c.base joint = .ok base' → 0 < base' := by
    intro base' based'
    rwa [Except.ok.inj (based'.symm.trans based)]
  obtain ⟨team, rfl, rfl⟩ := HistorySpace.exists_numbering_of_base_pos whole teamed.created
  exact ⟨⟨numberings, team, planned, by rw [same, joined]⟩, same, rfl⟩

theorem exists_roster (sized : Sized alphabets)
    (created : create alphabets horizon eagerIndividual eagerJoint = .ok space) :
    ∃ roster : Roster c, roster.alphabets = alphabets ∧ roster.team.horizon = horizon := by
  obtain ⟨_, _, joint, joined, teamed⟩ := create_eq_ok_iff.mp created
  obtain ⟨base, based⟩ : ∃ base, c.base joint = .ok base := by
    rcases teamed.created with built | built
    all_goals
      obtain ⟨base, based, _⟩ := bind_eq_ok_iff.mp built
      exact ⟨base, based⟩
  exact exists_roster_of_joint_base joined based
    (HistoryKind.base_pos based (Alphabet.joint_sized sized joined)) created

theorem follows_of_create (created : create roster.alphabets roster.team.horizon eagerIndividual
    eagerJoint = .ok space) : space.Follows roster := by
  obtain ⟨same, seated, joint, joined, teamed⟩ := create_eq_ok_iff.mp created
  obtain rfl : joint = roster.team.alphabet := Except.ok.inj (joined.symm.trans roster.joint)
  exact ⟨same, seated_of_mapM seated, HistorySpace.follows_of_created teamed.created⟩

/-- With a stage to plan for a team can be created in every combination of modes, and notes the
agents' own histories that the roster reads off the joint ones. -/
theorem exists_create (planned : 0 < roster.team.horizon) (eagerIndividual eagerJoint : Bool) :
    ∃ space, create roster.alphabets roster.team.horizon eagerIndividual eagerJoint = .ok space ∧
      space.Charted roster := by
  have each : ∀ alphabet ∈ roster.alphabets, ∃ histories : HistorySpace c Unit,
      agentSpace roster.team.horizon eagerIndividual alphabet = .ok histories := by
    intro alphabet member
    obtain ⟨agent, listed, rfl⟩ := List.mem_map.mp member
    rw [← roster.planned agent listed] at planned ⊢
    exact exists_agentSpace agent planned eagerIndividual
  obtain ⟨agents, made⟩ := exists_mapM_eq_ok each
  have seated := seated_of_mapM made
  have first : roster.individual 0 = List.replicate roster.alphabets.length 0 := by
    rw [Roster.individual_zero, Roster.alphabets, List.length_map]
  cases eagerJoint with
  | false =>
      obtain ⟨team, built, _, charted⟩ := HistorySpace.Charted.closedForm roster.team planned
        (fun index individual => roster.individual index = individual) first
      exact ⟨⟨roster.alphabets, agents, team⟩,
        create_eq_ok_iff.mpr ⟨rfl, made, _, roster.joint, .inr ⟨rfl, built⟩⟩, rfl, seated, charted⟩
  | true =>
      have noted : ∀ index individual, roster.team.Noted
          (List.replicate roster.alphabets.length 0) (fun individual _ symbol =>
            extendIndividual agents roster.alphabets individual symbol) index individual →
          roster.individual index = individual :=
        fun _ _ => Numbering.Noted.of_inherited first seated.inherited
      obtain ⟨team, built, _, charted⟩ := (HistorySpace.enumerate_meets roster.team planned
        (List.replicate roster.alphabets.length 0) fun individual _ symbol =>
          extendIndividual agents roster.alphabets individual symbol).exists_eq_ok
            fun fault refused => seated.not_refused fault (refused.imp noted)
      exact ⟨⟨roster.alphabets, agents, team⟩,
        create_eq_ok_iff.mpr ⟨rfl, made, _, roster.joint, .inl ⟨rfl, built⟩⟩, rfl, seated,
        charted.imp noted⟩

theorem charted_of_create (planned : 0 < roster.team.horizon) (created : create roster.alphabets
    roster.team.horizon eagerIndividual eagerJoint = .ok space) : space.Charted roster := by
  obtain ⟨made, success, charted⟩ := exists_create planned eagerIndividual eagerJoint
  rw [created] at success
  cases success
  exact charted

end TeamSpace

end TeamPlanning
