import TeamPlanning.Proofs.History.Reading

/-! # What the modes decide

Whether a team's histories can be kept does not depend on how they are kept, with one exception. An
alphabet without symbols of a kind has one history only. The closed form has empty stages for the
rest of the horizon, but the tally of an enumeration never gets to them, so the two differ. -/

set_option autoImplicit false

namespace TeamPlanning

/-- The alphabet has symbols of the kind. -/
def Alphabet.HasSymbols (alphabet : Alphabet) : HistoryKind → Prop
  | .observation => 0 < alphabet.observations
  | .action => 0 < alphabet.actions
  | .actionObservation => 0 < alphabet.actions ∧ 0 < alphabet.observations

/-- Several stages are planned for, but no history of the kind gets beyond the first. -/
def Alphabet.StopsShort (alphabet : Alphabet) (c : HistoryKind) (horizon : Nat) : Prop :=
  horizon ≠ 1 ∧ ¬ alphabet.HasSymbols c

variable {c : HistoryKind} {alphabet joint : Alphabet} {alphabets : List Alphabet}
  {base horizon : Nat}

theorem HistoryKind.base_pos_iff (based : c.base alphabet = .ok base) :
    0 < base ↔ alphabet.HasSymbols c := by
  cases c with
  | observation =>
      cases based
      exact Iff.rfl
  | action =>
      cases based
      exact Iff.rfl
  | actionObservation =>
      obtain ⟨_, rfl⟩ := Bounded.mul_eq_ok_iff.mp based
      exact ⟨fun positive => ⟨Nat.pos_of_mul_pos_right positive, Nat.pos_of_mul_pos_left positive⟩,
        fun both => Nat.mul_pos both.1 both.2⟩

/-- A team has joint symbols if every agent has some. -/
theorem Alphabet.hasSymbols_joint_iff (joined : Alphabet.joint alphabets = .ok joint) :
    joint.HasSymbols c ↔ ∀ alphabet ∈ alphabets, alphabet.HasSymbols c := by
  obtain ⟨⟨actions, _⟩, observations, _⟩ := Alphabet.joint_eq_ok joined
  cases c with
  | observation =>
      simp only [HasSymbols, observations, List.prod_pos_iff_forall_pos_nat, List.forall_mem_map]
  | action =>
      simp only [HasSymbols, actions, List.prod_pos_iff_forall_pos_nat, List.forall_mem_map]
  | actionObservation =>
      simp only [HasSymbols, actions, observations, List.prod_pos_iff_forall_pos_nat,
        List.forall_mem_map, ← forall_and]

namespace HistorySpace

variable {ν : Type} {note : ν} {described : HistorySpace c ν}

theorem exists_base (known : closedForm alphabet horizon note = .ok described) :
    ∃ base, c.base alphabet = .ok base ∧ (0 < base ↔ alphabet.HasSymbols c) := by
  obtain ⟨base, based, _⟩ := bind_eq_ok_iff.mp known
  exact ⟨base, based, HistoryKind.base_pos_iff based⟩

theorem enumerate_of_stopsShort (planned : 1 ≤ horizon)
    (known : closedForm alphabet horizon note = .ok described)
    (short : alphabet.StopsShort c horizon) (noteOf : ν → Nat → Symbol c → Except Fault ν) :
    enumerate alphabet horizon note noteOf = .error (.inconsistent c) := by
  obtain ⟨base, based, positive⟩ := exists_base known
  obtain rfl : base = 0 := Nat.eq_zero_of_not_pos fun given => short.2 (positive.mp given)
  have stored := (barren_of_closedForm based planned known).stored
  rw [enumerate_of_no_symbols based planned stored, if_neg short.1]

theorem exists_enumerate_single (known : closedForm alphabet 1 note = .ok described)
    (barren : ¬ alphabet.HasSymbols c) (noteOf : ν → Nat → Symbol c → Except Fault ν) :
    ∃ space, enumerate alphabet 1 note noteOf = .ok space := by
  obtain ⟨base, based, positive⟩ := exists_base known
  obtain rfl : base = 0 := Nat.eq_zero_of_not_pos fun given => barren (positive.mp given)
  exact ⟨_, enumerate_of_no_symbols based (le_refl 1) (by decide) note noteOf⟩

theorem exists_numbering_of_hasSymbols (known : closedForm alphabet horizon note = .ok described)
    (inhabited : alphabet.HasSymbols c) :
    ∃ numbering : Numbering c, numbering.alphabet = alphabet ∧ numbering.horizon = horizon := by
  have positive : ∀ base, c.base alphabet = .ok base → 0 < base := fun base based =>
    (HistoryKind.base_pos_iff based).mpr inhabited
  exact exists_numbering_of_base_pos positive
    (.inr known : enumerate alphabet horizon note (fun _ _ _ => .ok note) = .ok described ∨ _)

end HistorySpace

namespace TeamSpace

open HistorySpace

theorem agentSpace_of_stopsShort (planned : 1 ≤ horizon) {described : HistorySpace c Unit}
    (known : closedForm alphabet horizon () = .ok described) (short : alphabet.StopsShort c horizon) :
    agentSpace (c := c) horizon true alphabet = .error (.inconsistent c) :=
  enumerate_of_stopsShort planned known short _

theorem exists_agentSpace_of_closedForm (planned : 1 ≤ horizon) {described : HistorySpace c Unit}
    (known : closedForm alphabet horizon () = .ok described) (eager : Bool)
    (fits : ¬ (eager = true ∧ alphabet.StopsShort c horizon)) :
    ∃ histories : HistorySpace c Unit, agentSpace horizon eager alphabet = .ok histories := by
  cases eager with
  | false => exact ⟨described, known⟩
  | true =>
      by_cases inhabited : alphabet.HasSymbols c
      · obtain ⟨numbering, rfl, rfl⟩ := exists_numbering_of_hasSymbols known inhabited
        exact exists_agentSpace numbering planned true
      · obtain rfl : horizon = 1 := by
          by_contra several
          exact fits ⟨rfl, several, inhabited⟩
        exact exists_enumerate_single known inhabited _

variable {eagerIndividual eagerJoint : Bool} {space described : TeamSpace c}

/-- A team that can be described in closed form at all. -/
theorem closedForm_of_create (known : create alphabets horizon false false = .ok described) :
    (∀ alphabet ∈ alphabets, ∃ histories : HistorySpace c Unit,
      closedForm alphabet horizon () = .ok histories) ∧
      ∃ joint, Alphabet.joint alphabets = .ok joint ∧
        closedForm joint horizon (List.replicate alphabets.length 0) = .ok described.team := by
  obtain ⟨_, seated, joint, joined, teamed⟩ := create_eq_ok_iff.mp known
  refine ⟨fun alphabet member => ?_, joint, joined, ?_⟩
  · obtain ⟨place, inside, rfl⟩ := List.mem_iff_getElem.mp member
    obtain ⟨matched, visited⟩ := mapM_eq_ok_iff_getElem?.mp seated
    exact ⟨_, visited place _ _ (List.getElem?_eq_getElem inside)
      (List.getElem?_eq_getElem (by omega))⟩
  · rcases teamed with ⟨eager, _⟩ | ⟨_, built⟩
    · cases eager
    · exact built

/-- Whatever can be enumerated can be described in closed form. -/
theorem exists_create_lazy
    (created : create alphabets horizon eagerIndividual eagerJoint = .ok space) :
    ∃ described : TeamSpace c, create alphabets horizon false false = .ok described := by
  obtain ⟨_, seated, joint, joined, teamed⟩ := create_eq_ok_iff.mp created
  obtain ⟨team, built⟩ := exists_closedForm teamed.created
  have each : ∀ alphabet ∈ alphabets, ∃ histories : HistorySpace c Unit,
      agentSpace horizon false alphabet = .ok histories := by
    intro alphabet member
    obtain ⟨place, inside, rfl⟩ := List.mem_iff_getElem.mp member
    obtain ⟨matched, visited⟩ := mapM_eq_ok_iff_getElem?.mp seated
    exact exists_closedForm (created_of_agentSpace (visited place _ _
      (List.getElem?_eq_getElem inside) (List.getElem?_eq_getElem (by omega))))
  obtain ⟨agents, seated⟩ := exists_mapM_eq_ok each
  exact ⟨⟨alphabets, agents, team⟩,
    create_eq_ok_iff.mpr ⟨rfl, seated, joint, joined, .inr ⟨rfl, built⟩⟩⟩

/-- An agent that stops short keeps its own histories from being enumerated, and those of the team. -/
theorem create_of_stopsShort (planned : 1 ≤ horizon)
    (known : create alphabets horizon false false = .ok described)
    (eager : eagerIndividual = true ∨ eagerJoint = true)
    (short : ∃ alphabet ∈ alphabets, alphabet.StopsShort c horizon) :
    create (c := c) alphabets horizon eagerIndividual eagerJoint = .error (.inconsistent c) := by
  obtain ⟨each, joint, joined, described⟩ := closedForm_of_create known
  rw [create]
  cases eagerIndividual with
  | true =>
      obtain ⟨alphabet, member, several, barren⟩ := short
      obtain ⟨histories, own⟩ := each alphabet member
      obtain ⟨other, listed, fault, failed, whole⟩ := mapM_eq_error
        ⟨alphabet, member, _, agentSpace_of_stopsShort planned own ⟨several, barren⟩⟩
      obtain ⟨histories', own'⟩ := each other listed
      have short' : other.StopsShort c horizon := by
        by_contra fits
        obtain ⟨_, success⟩ :=
          exists_agentSpace_of_closedForm planned own' true fun given => fits given.2
        rw [failed] at success
        cases success
      rw [agentSpace_of_stopsShort planned own' short'] at failed
      cases failed
      exact bind_of_eq_error whole _
  | false =>
      obtain rfl : eagerJoint = true := eager.resolve_left Bool.false_ne_true
      obtain ⟨_, seated, _⟩ := create_eq_ok_iff.mp known
      obtain ⟨alphabet, member, several, barren⟩ := short
      have barren : ¬ joint.HasSymbols c := fun inhabited =>
        barren ((Alphabet.hasSymbols_joint_iff joined).mp inhabited alphabet member)
      have refused := enumerate_of_stopsShort planned described ⟨several, barren⟩
      rw [bind_of_eq_ok seated, bind_of_eq_ok joined]
      exact bind_of_eq_error (refused _) _

theorem exists_create_of_closedForm (planned : 1 ≤ horizon)
    (known : create alphabets horizon false false = .ok described)
    (fits : ¬ ((eagerIndividual = true ∨ eagerJoint = true) ∧
      ∃ alphabet ∈ alphabets, alphabet.StopsShort c horizon)) :
    ∃ space : TeamSpace c, create alphabets horizon eagerIndividual eagerJoint = .ok space := by
  obtain ⟨each, joint, joined, described'⟩ := closedForm_of_create known
  by_cases inhabited : joint.HasSymbols c
  · obtain ⟨base, based, positive⟩ := exists_base described'
    obtain ⟨roster, rfl, rfl⟩ :=
      exists_roster_of_joint_base joined based (positive.mpr inhabited) known
    obtain ⟨space, created, _⟩ := exists_create planned eagerIndividual eagerJoint
    exact ⟨space, created⟩
  · obtain ⟨alphabet, member, barren⟩ : ∃ alphabet ∈ alphabets, ¬ alphabet.HasSymbols c := by
      simpa [Alphabet.hasSymbols_joint_iff joined] using inhabited
    by_cases eager : eagerIndividual = true ∨ eagerJoint = true
    · obtain rfl : horizon = 1 := by
        by_contra several
        exact fits ⟨eager, alphabet, member, several, barren⟩
      have own : ∀ alphabet ∈ alphabets, ∃ histories : HistorySpace c Unit,
          agentSpace 1 eagerIndividual alphabet = .ok histories := by
        intro alphabet member
        obtain ⟨histories, known⟩ := each alphabet member
        exact exists_agentSpace_of_closedForm planned known eagerIndividual
          fun short => short.2.1 rfl
      obtain ⟨agents, seated⟩ := exists_mapM_eq_ok own
      have teamed : ∃ team : HistorySpace c (List Nat),
          Teamed alphabets 1 agents joint eagerJoint team := by
        cases eagerJoint with
        | false => exact ⟨_, .inr ⟨rfl, described'⟩⟩
        | true =>
            obtain ⟨team, built⟩ := exists_enumerate_single described' inhabited
              fun individual _ symbol => extendIndividual agents alphabets individual symbol
            exact ⟨team, .inl ⟨rfl, built⟩⟩
      obtain ⟨team, teamed⟩ := teamed
      exact ⟨⟨alphabets, agents, team⟩,
        create_eq_ok_iff.mpr ⟨rfl, seated, joint, joined, teamed⟩⟩
    · obtain ⟨first, second⟩ := not_or.mp eager
      rw [Bool.not_eq_true] at first second
      subst first second
      exact ⟨described, known⟩

end TeamSpace

end TeamPlanning
