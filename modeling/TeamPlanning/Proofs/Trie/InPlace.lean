import TeamPlanning.Proofs.Trie.Frames
import TeamPlanning.Trie.InPlace

/-! # Failing edits in place

An edit in place may fail after it has begun: what it made or dropped by then would stay. On a tree
that edits have made this does not happen. Whatever comes second cannot fail once the first is done,
so an edit in place does what the same edit does on a copy, and one that fails changes nothing. -/

set_option autoImplicit false

namespace TeamPlanning.Trie

variable {α β γ : Type} {trie : Trie α} {v : Nat} {letter : Letter}

/-- The outcome of an edit on a copy of the tree: the copy is taken over if the edit succeeds. -/
def settled (trie : Trie α) : Except Fault (β × Trie α) → Except Fault β × Trie α
  | .ok (answer, after) => (.ok answer, after)
  | .error fault => (.error fault, trie)

theorem settled_of_ok {outcome : Except Fault (β × Trie α)} {place : β × Trie α}
    (success : outcome = .ok place) (other : Trie α) : settled trie outcome = settled other outcome := by
  rw [success]
  rfl

namespace Editing

/-! ## Steps -/

theorem on_get_bind (next : Trie α → Editing α β) (trie : Trie α) :
    (get >>= next).on trie = (next trie).on trie := rfl

/-- The second step starts from the tree that the first one leaves. -/
theorem on_bind (edit : Editing α β) (next : β → Editing α γ) (trie : Trie α) :
    (edit >>= next).on trie = match edit.on trie with
      | (.ok answer, middle) => (next answer).on middle
      | (.error fault, middle) => (.error fault, middle) := by
  have unfolded : (edit >>= next).on trie =
      (ExceptT.bindCont next (edit.on trie).1).run (edit.on trie).2 := rfl
  rw [unfolded]
  rcases edit.on trie with ⟨_ | _, _⟩ <;> rfl

/-- A question to the tree changes nothing. -/
theorem on_ask {answer : Except Fault β} {next : β → Editing α γ}
    {rest : β → Except Fault (γ × Trie α)}
    (further : ∀ found, answer = .ok found → (next found).on trie = settled trie (rest found)) :
    (liftM answer >>= next).on trie = settled trie (answer >>= rest) := by
  rw [on_bind]
  cases answer with
  | error fault => rfl
  | ok found => exact further found rfl

/-- If the second step fails, then it has to leave the tree that the first one found. -/
theorem on_then {edit : Editing α β} {next : β → Editing α γ}
    {outcome : Except Fault (β × Trie α)} {rest : β × Trie α → Except Fault (γ × Trie α)}
    (first : edit.on trie = settled trie outcome)
    (further : ∀ found middle, outcome = .ok (found, middle) →
      (next found).on middle = settled trie (rest (found, middle))) :
    (edit >>= next).on trie = settled trie (outcome >>= rest) := by
  rw [on_bind, first]
  cases outcome with
  | error fault => rfl
  | ok place => exact further place.1 place.2 rfl

theorem on_releases (doomed : List Nat) (trie : Trie α) :
    Editing.on (forIn doomed PUnit.unit fun u _ => do
        modify (Trie.release · u)
        pure (.yield PUnit.unit)) trie = (.ok PUnit.unit, doomed.foldl release trie) := by
  induction doomed generalizing trie with
  | nil => rfl
  | cons u doomed ih =>
      rw [List.forIn_cons]
      exact ih (trie.release u)

/-! ## Edits -/

theorem on_assign (v index : Nat) (trie : Trie α) : (assign v index).on trie =
    settled trie (do return ((), ← trie.assign v index)) := by
  unfold assign Trie.assign
  rw [on_get_bind, bind_assoc]
  refine on_ask fun node _ => ?_
  rcases node.vertex with ⟨_ | held, value⟩ | _
  · rfl
  · by_cases same : held = index <;> simp only [same, ↓reduceIte] <;> rfl
  · rfl

theorem on_link (v key : Nat) (vertex : Vertex α) (trie : Trie α) :
    (link v key vertex).on trie = settled trie (trie.link v key vertex) := by
  unfold link Trie.link
  rw [on_get_bind]
  refine on_ask fun node _ => ?_
  rw [on_get_bind]
  cases trie.child? v key <;> rfl

theorem on_forkAt (v action : Nat) (trie : Trie α) :
    (forkAt v action).on trie = settled trie (trie.forkAt v action) := by
  unfold forkAt Trie.forkAt
  rw [on_get_bind]
  cases trie.child? v action with
  | none => exact on_link v action .fork trie
  | some child =>
      simp only [on_get_bind]
      cases trie.isFork child <;> rfl

/-- A fork that was made takes what is hung there, so it is not left empty. -/
theorem on_insert (tidy : trie.Tidy) (v : Nat) (letter : Letter) (value : α) :
    (insert v letter value).on trie = settled trie (trie.insert v letter value) := by
  unfold insert Trie.insert
  rw [on_get_bind]
  refine on_ask fun vertex _ => ?_
  cases vertex.isFork with
  | true => rfl
  | false =>
      cases letter with
      | one key => exact on_link v key _ trie
      | pair action observation =>
          refine on_then (on_forkAt v action trie) fun fork middle forked => ?_
          rw [on_link]
          rcases forkAt_cases forked with ⟨rfl, _, _⟩ | ⟨_, made⟩
          · rfl
          · obtain ⟨_, hung⟩ := link_cases tidy made
            obtain ⟨_, _, success, _⟩ := link_eq_ok hung.tidy hung.node?_child
              (hung.child?_child observation) (.entry none value)
            exact settled_of_ok success trie

/-- Dropping the subtree does not make the vertex above anything else. -/
theorem on_erase (linked : trie.Linked) (v : Nat) :
    (erase v).on trie = settled trie (trie.erase v) := by
  unfold erase Trie.erase
  by_cases top : v = root
  · simp only [top, ↓reduceIte]
    rfl
  · simp only [top, ↓reduceIte, on_get_bind]
    refine on_ask fun node found => ?_
    rw [on_get_bind, on_bind]
    change Editing.on (_ >>= _) (trie.detach v) = _
    rw [on_bind, on_releases]
    cases pointed : node.parent with
    | none => rfl
    | some parent =>
        have live := node?_of_node found
        have hangs : trie.above? v = some parent := by rw [above?_of_node? live, pointed]
        obtain ⟨nodup, listed⟩ := linked.subtree_spec live
        have isFork := (linked.cut live nodup listed).isFork_eq (linked.not_climbs_above hangs)
        simp only [on_get_bind, isFork]
        split <;> rfl

theorem on_replace (proper : trie.Proper) (v : Nat) (letter : Letter) (value : α) :
    (replace v letter value).on trie = settled trie (trie.replace v letter value) := by
  unfold replace Trie.replace
  rw [on_get_bind]
  cases found : trie.successor v letter with
  | error fault => exact on_insert proper.linked.tidy v letter value
  | ok old =>
      refine on_then (on_erase proper.linked old) fun count remaining erased => ?_
      rw [on_insert (erase_proper proper erased).linked.tidy]
      obtain ⟨child, after, success⟩ := replace_isOk_of_successor proper value found
      rw [Trie.replace, found] at success
      exact settled_of_ok ((bind_of_eq_ok erased _).symm.trans success) trie

theorem on_getOrInsert (proper : trie.Proper) (v : Nat) (letter : Letter)
    (make : α → Except Fault (α × Nat)) :
    (getOrInsert v letter make).on trie = settled trie (trie.getOrInsert v letter make) := by
  unfold getOrInsert Trie.getOrInsert
  rw [on_get_bind]
  cases trie.successor v letter with
  | ok child => rfl
  | error fault =>
      simp only [on_get_bind]
      refine on_ask fun held _ => on_ask fun made _ => ?_
      refine on_then (on_insert proper.linked.tidy v letter made.1) fun child filed inserted => ?_
      obtain ⟨after, assigned⟩ := assign_of_insert proper.linked inserted made.2
      rw [on_bind, on_assign, assigned]
      rfl

theorem on_discard {edit : Editing α β} {outcome : Except Fault (β × Trie α)}
    (first : edit.on trie = settled trie outcome) :
    Editing.on (do let _ ← edit; return ()) trie = settled trie (do return ((), (← outcome).2)) :=
  on_then first fun _ _ _ => rfl

end Editing

/-! ## Sequences of edits in place -/

namespace Edit

def perform : Edit α → Editing α Unit
  | .assign v index => Editing.assign v index
  | .insert v letter value => do let _ ← Editing.insert v letter value; return ()
  | .replace v letter value => do let _ ← Editing.replace v letter value; return ()
  | .getOrInsert v letter make => do let _ ← Editing.getOrInsert v letter make; return ()
  | .erase v => do let _ ← Editing.erase v; return ()

/-- The tree that an edit in place leaves, whether or not it fails. -/
def leave (trie : Trie α) (edit : Edit α) : Trie α := (edit.perform.on trie).2

theorem on_perform (edit : Edit α) (proper : trie.Proper) :
    edit.perform.on trie = settled trie (do return ((), ← edit.run trie)) := by
  have linked := proper.linked
  cases edit with
  | assign v index => exact Editing.on_assign v index trie
  | insert v letter value =>
      rw [run, bind_assoc]
      exact Editing.on_discard (Editing.on_insert linked.tidy v letter value)
  | replace v letter value =>
      rw [run, bind_assoc]
      exact Editing.on_discard (Editing.on_replace proper v letter value)
  | getOrInsert v letter make =>
      rw [run, bind_assoc]
      exact Editing.on_discard (Editing.on_getOrInsert proper v letter make)
  | erase v =>
      rw [run, bind_assoc]
      exact Editing.on_discard (Editing.on_erase linked v)

theorem leave_eq_apply (edit : Edit α) (proper : trie.Proper) : leave trie edit = apply trie edit := by
  unfold leave apply
  rw [edit.on_perform proper]
  cases edit.run trie <;> rfl

/-- Editing in place and editing copies make the same trees. -/
theorem foldl_leave_eq_apply (edits : List (Edit α)) (proper : trie.Proper) :
    edits.foldl leave trie = edits.foldl apply trie := by
  induction edits generalizing trie with
  | nil => rfl
  | cons edit edits ih =>
      rw [List.foldl_cons, List.foldl_cons, edit.leave_eq_apply proper]
      exact ih (edit.apply_proper proper)

end Edit

/-- If the edit fails, it leaves the tree as it was. -/
def Editing.Atomic (edit : Editing α β) (trie : Trie α) : Prop :=
  ∀ fault, (edit.on trie).1 = .error fault → (edit.on trie).2 = trie

theorem Editing.atomic_of_settled {edit : Editing α β} {outcome : Except Fault (β × Trie α)}
    (same : edit.on trie = settled trie outcome) : edit.Atomic trie := by
  intro fault failed
  rw [same] at failed ⊢
  cases outcome with
  | ok place => cases failed
  | error fault => rfl

/-- Edits in place that fail leave no trace in the tree. -/
structure FailsCleanly (trie : Trie α) : Prop where
  assign : ∀ v index, (Editing.assign v index).Atomic trie
  insert : ∀ v letter value, (Editing.insert v letter value).Atomic trie
  replace : ∀ v letter value, (Editing.replace v letter value).Atomic trie
  getOrInsert : ∀ v letter make, (Editing.getOrInsert v letter make).Atomic trie
  erase : ∀ v, (Editing.erase v).Atomic trie
  replaced : ∀ v letter value old, trie.successor v letter = .ok old →
    ∃ child after, (Editing.replace v letter value).on trie = (.ok child, after) ∧
      after.successor v letter = .ok child ∧ after.vertex child = .ok (.entry none value)
  bears : ∀ edit fork, (Edit.leave trie edit).isFork fork = true →
    ∃ u, (Edit.leave trie edit).Edge fork u

theorem Proper.failsCleanly (proper : trie.Proper) : trie.FailsCleanly := by
  have linked := proper.linked
  constructor
  case assign => exact fun v index => Editing.atomic_of_settled (Editing.on_assign v index trie)
  case insert =>
    exact fun v letter value =>
      Editing.atomic_of_settled (Editing.on_insert linked.tidy v letter value)
  case replace =>
    exact fun v letter value => Editing.atomic_of_settled (Editing.on_replace proper v letter value)
  case getOrInsert =>
    exact fun v letter make =>
      Editing.atomic_of_settled (Editing.on_getOrInsert proper v letter make)
  case erase => exact fun v => Editing.atomic_of_settled (Editing.on_erase linked v)
  case replaced =>
    intro v letter value old found
    obtain ⟨child, after, success⟩ := replace_isOk_of_successor proper value found
    refine ⟨child, after, ?_, ?_⟩
    · rw [Editing.on_replace proper, success]
      rfl
    · rcases proper.localEdits.replaced v letter value child after success with
        ⟨_, _, _, _, filed⟩ | ⟨_, filed⟩ <;> exact ⟨filed.successor, filed.vertex⟩
  case bears =>
    intro edit fork isFork
    rw [edit.leave_eq_apply proper] at isFork ⊢
    exact (edit.apply_proper proper).exists_edge isFork

/-- However a new tree was edited in place, edits that fail change nothing. -/
theorem Edit.edits_fail_cleanly (value : α) (edits : List (Edit α)) :
    (edits.foldl leave (singleton value)).FailsCleanly := by
  rw [foldl_leave_eq_apply edits (proper_singleton value)]
  exact (foldl_apply_proper edits (proper_singleton value)).failsCleanly

end TeamPlanning.Trie
