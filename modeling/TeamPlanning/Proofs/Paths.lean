import Mathlib.Algebra.BigOperators.Fin
import TeamPlanning.Proofs.Forward

/-! # Sums over paths

The forward mass of a state is a sum over all paths of states that end there, one product of
passages for each. -/

set_option autoImplicit false

namespace TeamPlanning.DecisionProcess

open scoped BigOperators

variable {process : DecisionProcess Rat} {event : Bool}

/-- The probability of going along a path of states, one passage for each symbol. -/
def course (process : DecisionProcess Rat) (event : Bool) (word : List (Symbol .actionObservation))
    (path : Fin (word.length + 1) → Fin process.states) : Rat :=
  ∏ step : Fin word.length, process.passage event (path step.castSucc) word[step] (path step.succ)

/-- The probability of a path of states and of the observations of a word on the way, given the
actions of the word. -/
def pathWeight (process : DecisionProcess Rat) (event : Bool)
    (word : List (Symbol .actionObservation))
    (path : Fin (word.length + 1) → Fin process.states) : Rat :=
  process.initial (path 0) * process.course event word path

theorem course_cons (symbol : Symbol .actionObservation) (word : List (Symbol .actionObservation))
    (first : Fin process.states) (rest : Fin (word.length + 1) → Fin process.states) :
    process.course event (symbol :: word) (Fin.cons first rest) =
      process.passage event first symbol (rest 0) * process.course event word rest := by
  exact Fin.prod_univ_succ _

/-- Mass moved along a word is the sum over the paths that it takes. -/
theorem sum_paths (process : DecisionProcess Rat) (event : Bool) (start factor : Nat → Rat)
    (word : List (Symbol .actionObservation)) :
    (∑ path : Fin (word.length + 1) → Fin process.states,
        start (path 0) * process.course event word path * factor (path (Fin.last _))) =
      ∑ state ∈ Finset.range process.states,
        word.foldl (process.advance event) start state * factor state := by
  induction word generalizing start with
  | nil =>
      rw [Finset.sum_range]
      refine Fintype.sum_equiv (Equiv.funUnique (Fin 1) (Fin process.states)) _ _ fun path => ?_
      simp [course]
  | cons symbol word ih =>
      rw [List.foldl_cons, ← ih]
      refine ((Fin.consEquiv fun _ => Fin process.states).sum_comp _).symm.trans ?_
      rw [Fintype.sum_prod_type_right]
      refine Finset.sum_congr rfl fun rest _ => ?_
      have each : ∀ first : Fin process.states,
          start first * process.course event (symbol :: word) (Fin.cons first rest) *
              factor (rest (Fin.last word.length)) =
            start first * process.passage event first symbol (rest 0) *
              (process.course event word rest * factor (rest (Fin.last word.length))) := by
        intro first
        rw [course_cons]
        ring
      refine (Finset.sum_congr rfl fun first _ => each first).trans ?_
      rw [← Finset.sum_mul, advance, Finset.sum_range, mul_assoc]

theorem evidence_eq_sum_paths (process : DecisionProcess Rat) (event : Bool)
    (word : List (Symbol .actionObservation)) :
    process.evidence event word =
      ∑ path : Fin (word.length + 1) → Fin process.states, process.pathWeight event word path := by
  have all := sum_paths process event process.initial (fun _ => 1) word
  simp only [mul_one] at all
  exact all.symm

theorem forward_eq_sum_paths (process : DecisionProcess Rat) (event : Bool)
    (word : List (Symbol .actionObservation)) (state : Fin process.states) :
    process.forward event word state =
      ∑ path : Fin (word.length + 1) → Fin process.states with path (Fin.last _) = state,
        process.pathWeight event word path := by
  have ending := sum_paths process event process.initial
    (fun other => if other = state then 1 else 0) word
  simp only [mul_ite, mul_one, mul_zero, Finset.sum_ite_eq', Finset.mem_range, state.isLt,
    ↓reduceIte, Fin.val_inj] at ending
  refine ending.symm.trans ?_
  rw [Finset.sum_filter]
  rfl

end TeamPlanning.DecisionProcess
