import TeamPlanning.Bounded
import TeamPlanning.Machine
import TeamPlanning.Stage.Boundary

/-! # Stage layouts

Histories are numbered stage by stage, so a numbering is described by how many histories each stage
has and by the number of its first one. A layout comes about in two ways: in closed form, where
stage `t` has `base ^ t` histories, or as a tally of histories visited breadth-first. -/

set_option autoImplicit false

namespace TeamPlanning

/-- The size of every stage and the number of its first history. In a finished layout each stage
starts where the one before it ends. -/
structure StageLayout where
  sizes : Array Nat
  starts : Array Nat
  deriving DecidableEq, Repr

namespace StageLayout

def empty : StageLayout := ⟨#[], #[]⟩

/-- Appends `stages` further stages to a layout whose last stage has `size` histories from `start`
on. The end of the last stage must be in range as well. -/
def extendGeometric (base : Nat) :
    (stages size start : Nat) → StageLayout → Except Fault StageLayout
  | 0, size, start, layout => do
      let _ ← Bounded.add start size
      return layout
  | stages + 1, size, start, layout => do
      let start ← Bounded.add start size
      let size ← Bounded.mul size base
      extendGeometric base stages size start ⟨layout.sizes.push size, layout.starts.push start⟩

/-- The layout in closed form, where stage `t` has `base ^ t` histories. -/
def layOut (base : Nat) : (horizon : Nat) → Except Fault StageLayout
  | 0 => .ok empty
  | stages + 1 => extendGeometric base stages 1 0 ⟨#[1], #[0]⟩

/-- The layout in closed form. Room for all stages is made before the first one is laid out, so the
machine halts if there are too many, whatever the base. -/
def geometric (base horizon : Nat) : Except Fault StageLayout := do
  Machine.reserve horizon
  layOut base horizon

/-- Notes that history `index` has stage `stage`: opens every stage up to that one which is not open
yet. Histories are noted in the order of their numbers. -/
def note (layout : StageLayout) (stage index : Nat) : StageLayout :=
  { layout with
    starts := layout.starts ++ Array.replicate (stage + 1 - layout.starts.size) index }

/-- Ends the tally after `total` histories: every stage lasts until the next one starts. -/
def finish (layout : StageLayout) (total : Nat) : StageLayout :=
  let starts := layout.starts.toList
  { layout with sizes := (List.zipWith Word.sub (starts.drop 1 ++ [total]) starts).toArray }

def stages (layout : StageLayout) : Nat := layout.sizes.size

private def beyond (layout : StageLayout) (stage : Nat) : Fault :=
  .missing (.stage stage layout.stages)

def sizeAt (layout : StageLayout) (stage : Nat) : Except Fault Nat :=
  match layout.sizes[stage]? with
  | some size => .ok size
  | none => .error (layout.beyond stage)

/-- The number of the first history of a stage. -/
def startAt (layout : StageLayout) (stage : Nat) : Except Fault Nat :=
  match layout.starts[stage]? with
  | some start => .ok start
  | none => .error (layout.beyond stage)

/-- How many histories there are over all stages: the end of the last one. -/
def total (layout : StageLayout) : Nat :=
  match layout.starts.back?, layout.sizes.back? with
  | some start, some size => Word.add start size
  | _, _ => 0

/-- How many histories come before a stage. The end of the last stage counts as a stage here. -/
def preceding (layout : StageLayout) (stage : Nat) : Except Fault Nat :=
  if stage = layout.stages then .ok layout.total else layout.startAt stage

/-- The stage of a history: the last one that starts at or before it. -/
def stageOf (layout : StageLayout) (index : Nat) : Except Fault Nat :=
  if index < layout.total then
    .ok (Word.sub (boundary (fun t => (layout.starts[t]?).any (· ≤ index)) layout.starts.size) 1)
  else .error (.missing (.historyIndex index layout.total))

end StageLayout

end TeamPlanning
