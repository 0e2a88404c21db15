import TeamPlanning.Proofs.Planner.Weighting

/-! # Realizations in two stretches

From a predecessor on, a history is realized in one go or in two stretches, with any history between
as the place to rest. The second stretch starts from the belief that the first one ends with and
consults the policy at the same elements, so the beliefs are the same. The probabilities are
multiplied from the left; where multiplication is associative, they are multiplied stretch by
stretch. -/

set_option autoImplicit false

namespace TeamPlanning

variable {W : Type} [Weight W]

section Filter

variable (process : DecisionProcess W) (event : Bool)

theorem Belief.filterAlong_append (belief : Belief W)
    (first second : List (Symbol .actionObservation)) :
    belief.filterAlong process event (first ++ second) =
      ((belief.filterAlong process event first).1 ++
          ((belief.filterAlong process event first).2.filterAlong process event second).1,
        ((belief.filterAlong process event first).2.filterAlong process event second).2) := by
  induction first generalizing belief with
  | nil => rfl
  | cons symbol first ih =>
      cases symbol with
      | actionObservation jointAction jointObservation =>
          exact congrArg (fun answer : List W × Belief W => (_ :: answer.1, answer.2)) (ih _)

theorem Belief.length_filterAlong (belief : Belief W) (word : List (Symbol .actionObservation)) :
    (belief.filterAlong process event word).1.length = word.length := by
  induction word generalizing belief with
  | nil => rfl
  | cons symbol word ih =>
      cases symbol with
      | actionObservation jointAction jointObservation => exact congrArg Nat.succ (ih _)

end Filter

/-- Factors are multiplied onto what they start from. -/
theorem foldl_mul_start (assoc : ∀ x y z : W, x * y * z = x * (y * z))
    (neutral : ∀ x : W, x * Weight.one = x) (factors : List W) (start : W) :
    factors.foldl (· * ·) start = start * factors.foldl (· * ·) Weight.one := by
  induction factors using List.reverseRecOn with
  | nil => exact (neutral start).symm
  | append_singleton factors factor ih =>
      rw [List.foldl_concat, List.foldl_concat, ih, assoc]

namespace Planner

variable {planner : Planner W} {policy? : Option (JointPolicy W)}

theorem weightsAlong_append (history first second : List (Symbol .actionObservation)) :
    planner.weightsAlong policy? history (first ++ second) =
      planner.weightsAlong policy? history first >>= fun weights =>
        (planner.weightsAlong policy? (history ++ first) second).map (weights ++ ·) := by
  induction first generalizing history with
  | nil =>
      rw [List.nil_append, List.append_nil]
      cases planner.weightsAlong policy? history second <;> rfl
  | cons symbol first ih =>
      cases symbol with
      | actionObservation jointAction jointObservation =>
          rw [List.cons_append, weightsAlong, weightsAlong, ih, List.append_assoc]
          cases planner.weightAfter policy? history jointAction with
          | error fault => rfl
          | ok weight =>
              rw [bind_of_eq_ok rfl, bind_of_eq_ok rfl]
              cases planner.weightsAlong policy?
                  (history ++ [.actionObservation jointAction jointObservation]) first with
              | error fault => rfl
              | ok weights =>
                  rw [bind_of_eq_ok rfl, bind_of_eq_ok rfl, List.singleton_append]
                  cases planner.weightsAlong policy?
                      (history ++ .actionObservation jointAction jointObservation :: first)
                      second <;> rfl

/-- What an answer is made of: the belief at the end, and one factor for each symbol. -/
theorem continueFrom_eq_ok_iff {history word : List (Symbol .actionObservation)}
    {start : Belief W} {p : W} {answer : Belief W × W} :
    planner.continueFrom policy? history word start p = .ok answer ↔
      ∃ weights, planner.weightsAlong policy? history word = .ok weights ∧
        answer = ((start.filterAlong planner.process planner.settings.eventObservability word).2,
          (List.zipWith (· * ·) (start.filterAlong planner.process
            planner.settings.eventObservability word).1 weights).foldl (· * ·) p) := by
  rw [continueFrom]
  refine bind_eq_ok_iff.trans (exists_congr fun weights => and_congr_right fun _ => ?_)
  exact ⟨fun made => (Except.ok.inj made).symm, fun same => congrArg Except.ok same.symm⟩

/-- One walk over two words is a walk over the first and, from where that has led, over the
second. -/
theorem continueFrom_append (history first second : List (Symbol .actionObservation))
    (start : Belief W) (p : W) :
    planner.continueFrom policy? history (first ++ second) start p =
      planner.continueFrom policy? history first start p >>= fun answer =>
        planner.continueFrom policy? (history ++ first) second answer.1 answer.2 := by
  simp only [continueFrom]
  rw [weightsAlong_append, Belief.filterAlong_append]
  cases weighed : planner.weightsAlong policy? history first with
  | error fault => rfl
  | ok weights =>
      have matched : (start.filterAlong planner.process planner.settings.eventObservability
          first).1.length = weights.length := by
        rw [Belief.length_filterAlong, (weightsAlong_eq_ok_iff.mp weighed).1]
      refine (bind_of_eq_ok rfl _).trans ?_
      cases planner.weightsAlong policy? (history ++ first) second with
      | error fault => rfl
      | ok weights' =>
          refine congrArg (fun q => Except.ok (_, q)) ?_
          rw [List.zipWith_append matched, List.foldl_append]

namespace Ready

variable {stages : Nat} {workspace : Workspace W} (ready : planner.Ready stages workspace)
include ready

/-- A longer history is realized from its beginning by walking over what is left of it. -/
theorem realize_of_extends (policy? : Option (JointPolicy W)) {index predecessor : Nat}
    {former later : List (Symbol .actionObservation)}
    (spelled : planner.jointSymbols .actionObservation index = .ok (former ++ later))
    (spelled' : planner.jointSymbols .actionObservation predecessor = .ok former)
    (proper : later ≠ []) (start : Belief W) :
    planner.realize index predecessor (some start) policy? =
      planner.continueFrom policy? former later start Weight.one := by
  obtain ⟨inside, word⟩ := ready.jointSymbols_eq_ok_iff.mp spelled
  obtain ⟨present, word'⟩ := ready.jointSymbols_eq_ok_iff.mp spelled'
  have longer : predecessor ≠ index := by
    intro same
    rw [same, word] at word'
    exact proper (List.append_right_eq_self.mp word')
  rw [ready.realize_some_eq_prefixRule policy? start inside present,
    if_neg fun drained => longer drained.1, word, word', prefixRule,
    if_pos (List.prefix_append former later), List.drop_left]

end Ready

/-- A history that is realized over one in between is realized with the same belief as in one go. The
factors of the second stretch are those with which the walk in one go continues, so where
multiplication is associative the two probabilities are multiplied. -/
theorem realize_in_stretches {process : DecisionProcess W} {stages : Nat} {settings : Settings}
    (serves : Serves process stages settings planner) {index middle predecessor : Nat}
    {former between later : List (Symbol .actionObservation)}
    (spelled : planner.jointSymbols .actionObservation predecessor = .ok former)
    (spelled' : planner.jointSymbols .actionObservation middle = .ok (former ++ between))
    (spelled'' : planner.jointSymbols .actionObservation index =
      .ok (former ++ between ++ later))
    (proper : between ≠ []) (proper' : later ≠ []) (start : Belief W)
    (covers : ∀ policy, policy? = some policy → planner.Covers policy) :
    ∃ reached last first second whole,
      planner.realize middle predecessor (some start) policy? = .ok (reached, first) ∧
      planner.realize index middle (some reached) policy? = .ok (last, second) ∧
      planner.realize index predecessor (some start) policy? = .ok (last, whole) ∧
      (∃ factors : List W, second = factors.foldl (· * ·) Weight.one ∧
        whole = factors.foldl (· * ·) first) ∧
      ((∀ x y z : W, x * y * z = x * (y * z)) → (∀ x : W, x * Weight.one = x) →
        whole = first * second) := by
  obtain ⟨_, _, workspace, ready⟩ := serves.ready
  have halfway := ready.realize_of_extends policy? spelled' spelled proper start
  have onward := ready.realize_of_extends policy? spelled'' spelled' proper'
  have direct := ready.realize_of_extends policy?
    (spelled''.trans (congrArg Except.ok (List.append_assoc former between later))) spelled
    (by simp [proper]) start
  obtain ⟨present, word⟩ := ready.jointSymbols_eq_ok_iff.mp spelled
  obtain ⟨present', word'⟩ := ready.jointSymbols_eq_ok_iff.mp spelled'
  obtain ⟨inside, word''⟩ := ready.jointSymbols_eq_ok_iff.mp spelled''
  obtain ⟨weights, weighed⟩ := ready.exists_weightsAlong covers present' present
    (word'.trans (congrArg (· ++ between) word.symm))
  obtain ⟨weights', weighed'⟩ := ready.exists_weightsAlong covers inside present'
    (word''.trans (congrArg (· ++ later) word'.symm))
  rw [word] at weighed
  rw [word'] at weighed'
  have rested : planner.continueFrom policy? former between start Weight.one = .ok (_, _) :=
    continueFrom_eq_ok_iff.mpr ⟨weights, weighed, rfl⟩
  rw [continueFrom_append, bind_of_eq_ok rested,
    continueFrom_eq_ok_iff.mpr ⟨weights', weighed', rfl⟩] at direct
  refine ⟨_, _, _, _, _, halfway.trans rested,
    (onward _).trans (continueFrom_eq_ok_iff.mpr ⟨weights', weighed', rfl⟩), direct,
    ⟨_, rfl, rfl⟩, fun assoc neutral => foldl_mul_start assoc neutral _ _⟩

/-- Two steps from the empty history on, with a rest after the first, under a policy with weights of
one half. -/
theorem realize_in_stretches_steady :
    ∃ planner : Planner Rat, Serves .steady 3 (Settings.nothing.keeping true false) planner ∧
      planner.jointSymbols .actionObservation 0 = .ok [] ∧
        planner.jointSymbols .actionObservation 1 = .ok ([] ++ [.actionObservation 0 0]) ∧
          planner.jointSymbols .actionObservation 3 =
            .ok ([] ++ [.actionObservation 0 0] ++ [.actionObservation 0 0]) ∧
            planner.Covers .even ∧
              ∃ reached last first second,
                planner.realize 1 0 (some (.dense [1])) (some .even) = .ok (reached, first) ∧
                  planner.realize 3 1 (some reached) (some .even) = .ok (last, second) ∧
                    planner.realize 3 0 (some (.dense [1])) (some .even) =
                      .ok (last, first * second) := by
  obtain ⟨planner, made, answers⟩ := exists_steady false
  have spelled : planner.jointSymbols .actionObservation 0 = .ok [] := by
    apply answers
    decide +kernel
  have spelled' : planner.jointSymbols .actionObservation 1 =
      .ok ([] ++ [.actionObservation 0 0]) := by
    apply answers
    decide +kernel
  have spelled'' : planner.jointSymbols .actionObservation 3 =
      .ok ([] ++ [.actionObservation 0 0] ++ [.actionObservation 0 0]) := by
    apply answers
    decide +kernel
  have covers : planner.Covers .even :=
    ⟨by simp [JointPolicy.even], fun _ _ _ _ _ _ _ _ => ⟨1 / 2, rfl⟩⟩
  obtain ⟨reached, last, first, second, whole, halfway, onward, direct, _, product⟩ :=
    realize_in_stretches (.created made) spelled spelled' spelled'' (by simp) (by simp)
      (.dense [1]) fun _ given => Option.some.inj given ▸ covers
  rw [product Rat.mul_assoc Rat.mul_one] at direct
  exact ⟨planner, .created made, spelled, spelled', spelled'', covers, reached, last, first, second,
    halfway, onward, direct⟩

end Planner

end TeamPlanning
