import TeamPlanning.Proofs.Trie.Counts
import TeamPlanning.Proofs.Trie.Successors
import TeamPlanning.Trie.Display

/-! # What a drawing shows

A drawing follows the successors of an entry, then the successors of each of them, without a bound on the
depth. Along successors every entry is reached from the root in one way, so the drawing comes to an end
and has one line for each entry. A climb from an entry passes no more vertices than there are slots. -/

set_option autoImplicit false

namespace TeamPlanning.Trie

variable {α : Type} {trie : Trie α} {text : α → String} {margin : String} {v u w depth : Nat}
  {letter : Letter} {places : List (Letter × Nat)} {drawn drawn' : List (Nat × String)}

/-! ## Climbing from entry to entry -/

namespace Linked

variable (linked : trie.Linked)
include linked

theorem climbs_of_leads (leads : trie.Leads v letter w) : trie.Climbs w v := by
  cases leads with
  | single found _ => exact .single (linked.above?_of_child? found)
  | paired found _ below =>
      exact .head (linked.above?_of_child? below) (.single (linked.above?_of_child? found))

theorem not_climbs_of_leads (leads : trie.Leads v letter w) : ¬ trie.Climbs v w := by
  intro climbs
  cases leads with
  | single found _ => exact linked.not_climbs_above (linked.above?_of_child? found) climbs
  | paired found _ below =>
      exact linked.not_climbs_above (linked.above?_of_child? below)
        (.head (linked.above?_of_child? found) climbs)

/-- A climb to another entry passes the entry that its start extends. -/
theorem climbs_of_leads_of_ne (leads : trie.Leads v letter w) (climbs : trie.Climbs w u)
    (other : w ≠ u) (entry : trie.IsEntry u) : trie.Climbs v u := by
  cases leads with
  | single found _ => exact climbs.of_ne other (linked.above?_of_child? found)
  | paired found isFork below =>
      have climbs := climbs.of_ne other (linked.above?_of_child? below)
      refine climbs.of_ne ?_ (linked.above?_of_child? found)
      rintro rfl
      rw [isFork_of_isEntry entry] at isFork
      cases isFork

theorem isEntry_of_mem_successors (member : w ∈ (trie.successors v).map (·.2)) :
    trie.IsEntry w := by
  obtain ⟨letter, leads⟩ := linked.mem_map_successors_iff.mp member
  exact linked.isEntry_of_leads leads

theorem not_mem_beneath_successors : v ∉ trie.Beneath ((trie.successors v).map (·.2)) := by
  rintro ⟨w, member, climbs⟩
  obtain ⟨letter, leads⟩ := linked.mem_map_successors_iff.mp member
  exact linked.not_climbs_of_leads leads climbs

theorem climbs_of_mem_beneath (below : u ∈ trie.Beneath ((trie.successors v).map (·.2))) :
    trie.Climbs u v := by
  obtain ⟨w, member, climbs⟩ := below
  obtain ⟨letter, leads⟩ := linked.mem_map_successors_iff.mp member
  exact climbs.trans (linked.climbs_of_leads leads)

theorem climbs_iff_successors (entry : trie.IsEntry v) (entry' : trie.IsEntry u) :
    trie.Climbs u v ↔ u = v ∨ u ∈ trie.Beneath ((trie.successors v).map (·.2)) := by
  constructor
  · intro climbs
    rcases linked.climbs_iff.mp climbs with same | ⟨child, member, climbs⟩
    · exact .inl same
    · obtain ⟨key, found⟩ := linked.exists_child? (linked.mem_below_iff.mp member)
      cases isFork : trie.isFork child with
      | false =>
          have leads : trie.Leads v (.one key) child := .single found isFork
          exact .inr ⟨child, linked.mem_map_successors_iff.mpr ⟨_, leads⟩, climbs⟩
      | true =>
          -- An entry is not the fork itself, so it is below one of the vertices there.
          rcases linked.climbs_iff.mp climbs with rfl | ⟨other, member, climbs⟩
          · rw [isFork_of_isEntry entry'] at isFork
            cases isFork
          · obtain ⟨observation, below⟩ := linked.exists_child? (linked.mem_below_iff.mp member)
            have leads : trie.Leads v (.pair key observation) other := .paired found isFork below
            exact .inr ⟨other, linked.mem_map_successors_iff.mpr ⟨_, leads⟩, climbs⟩
  · rintro (rfl | below)
    · exact .refl
    · exact linked.climbs_of_mem_beneath below

theorem successors_apart (entry : trie.IsEntry v) :
    ((trie.successors v).map (·.2)).Pairwise trie.Apart := by
  have different := linked.nodup_successors entry
  refine different.imp_of_mem fun {one other} member member' unequal u climbs climbs' => ?_
  obtain ⟨letter, leads⟩ := linked.mem_map_successors_iff.mp member
  obtain ⟨letter', leads'⟩ := linked.mem_map_successors_iff.mp member'
  -- Otherwise the entry would be below one of its successors.
  rcases climbs.comparable climbs' with further | further
  · exact linked.not_climbs_of_leads leads'
      (linked.climbs_of_leads_of_ne leads further unequal (linked.isEntry_of_leads leads'))
  · exact linked.not_climbs_of_leads leads
      (linked.climbs_of_leads_of_ne leads' further unequal.symm (linked.isEntry_of_leads leads))

end Linked

/-! ## Drawing without a bound -/

def lineOf (trie : Trie α) (text : α → String) (margin : String) (last : Bool) (letter : Letter)
    (v : Nat) : String :=
  margin ++ (if last then "└" else "├") ++ "──" ++ letter.text ++ " → " ++
    ((trie.node? v).map (label text ·.vertex)).getD "" ++ "\n"

def rootLine (trie : Trie α) (text : α → String) : String :=
  "ROOT   " ++ ((trie.node? root).map (label text ·.vertex)).getD "" ++ "\n"

/-- The margin of the lines below a line. -/
def inset (margin : String) (last : Bool) : String := margin ++ if last then "    " else "│   "

/-- The lines drawn for a list of places, each with its vertex. A line is followed by those for its
vertex's successors, and then by those for the other places. -/
inductive Draws (trie : Trie α) (text : α → String) :
    String → List (Letter × Nat) → List (Nat × String) → Prop where
  | nothing {margin : String} : Draws trie text margin [] []
  | entry {margin : String} {letter : Letter} {v : Nat} {rest : List (Letter × Nat)}
      {below beside : List (Nat × String)}
      (inner : Draws trie text (inset margin rest.isEmpty) (trie.successors v) below)
      (others : Draws trie text margin rest beside) :
      Draws trie text margin ((letter, v) :: rest)
        ((v, trie.lineOf text margin rest.isEmpty letter v) :: (below ++ beside))

namespace Draws

theorem unique (draws : trie.Draws text margin places drawn)
    (draws' : trie.Draws text margin places drawn') : drawn = drawn' := by
  induction draws generalizing drawn' with
  | nothing => cases draws' with
    | nothing => rfl
  | entry inner others ih ih' => cases draws' with
    | entry inner' others' => rw [ih inner', ih' others']

theorem places_sublist (draws : trie.Draws text margin places drawn) :
    (places.map (·.2)).Sublist (drawn.map (·.1)) := by
  induction draws with
  | nothing => exact .slnil
  | entry inner others ih ih' =>
      rw [List.map_cons, List.map_cons, List.map_append]
      exact (ih'.trans (List.sublist_append_right _ _)).cons_cons _

/-- A vertex is drawn before its successors, and these in order. -/
theorem successors_sublist (draws : trie.Draws text margin places drawn)
    (member : v ∈ drawn.map (·.1)) :
    (v :: (trie.successors v).map (·.2)).Sublist (drawn.map (·.1)) := by
  induction draws with
  | nothing => cases member
  | entry inner others ih ih' =>
      rw [List.map_cons, List.map_append] at member ⊢
      rcases List.mem_cons.mp member with rfl | member
      · exact (inner.places_sublist.trans (List.sublist_append_left _ _)).cons_cons _
      · rcases List.mem_append.mp member with member | member
        · exact ((ih member).trans (List.sublist_append_left _ _)).cons _
        · exact ((ih' member).trans (List.sublist_append_right _ _)).cons _

/-- All entries below the places are drawn, and no forks. -/
theorem mem_iff (draws : trie.Draws text margin places drawn) (linked : trie.Linked)
    (entries : ∀ v ∈ places.map (·.2), trie.IsEntry v) :
    u ∈ drawn.map (·.1) ↔ trie.IsEntry u ∧ u ∈ trie.Beneath (places.map (·.2)) := by
  induction draws with
  | nothing => simp [Beneath]
  | @entry _ letter v rest _ _ inner others ih ih' =>
      obtain ⟨entry, entries⟩ := List.forall_mem_cons.mp entries
      have ih := ih fun w member => linked.isEntry_of_mem_successors member
      rw [List.map_cons, List.mem_cons, List.map_append, List.mem_append, ih, ih' entries,
        List.map_cons, mem_beneath_cons]
      constructor
      · rintro (rfl | ⟨entry', below⟩ | ⟨entry', beside⟩)
        · exact ⟨entry, .inl .refl⟩
        · exact ⟨entry', .inl (linked.climbs_of_mem_beneath below)⟩
        · exact ⟨entry', .inr beside⟩
      · rintro ⟨entry', climbs | beside⟩
        · rcases (linked.climbs_iff_successors entry entry').mp climbs with same | below
          · exact .inl same
          · exact .inr (.inl ⟨entry', below⟩)
        · exact .inr (.inr ⟨entry', beside⟩)

theorem nodup (draws : trie.Draws text margin places drawn) (linked : trie.Linked)
    (entries : ∀ v ∈ places.map (·.2), trie.IsEntry v)
    (apart : (places.map (·.2)).Pairwise trie.Apart) : (drawn.map (·.1)).Nodup := by
  induction draws with
  | nothing => exact .nil
  | @entry _ letter v rest below beside inner others ih ih' =>
      obtain ⟨entry, entries⟩ := List.forall_mem_cons.mp entries
      obtain ⟨separate, apart⟩ := List.pairwise_cons.mp apart
      have listed : ∀ w ∈ (trie.successors v).map (·.2), trie.IsEntry w :=
        fun w member => linked.isEntry_of_mem_successors member
      have within : ∀ u ∈ below.map (·.1), u ∈ trie.Beneath ((trie.successors v).map (·.2)) :=
        fun u member => ((inner.mem_iff linked listed).mp member).2
      have outside : ∀ u ∈ beside.map (·.1), ¬ trie.Climbs u v := by
        intro u member climbs
        obtain ⟨_, top, member, climbs'⟩ := (others.mem_iff linked entries).mp member
        exact separate top member u climbs climbs'
      rw [List.map_cons, List.map_append, List.nodup_cons, List.nodup_append]
      refine ⟨?_, ih listed (linked.successors_apart entry), ih' entries apart, ?_⟩
      · intro member
        rcases List.mem_append.mp member with member | member
        · exact linked.not_mem_beneath_successors (within v member)
        · exact outside v member .refl
      · rintro u member _ member' rfl
        exact outside u member' (linked.climbs_of_mem_beneath (within u member))

end Draws

/-! ## The bound -/

/-- The lines below an entry, one place after the other. -/
def linesBeside (trie : Trie α) (text : α → String) (depth : Nat) (margin : String) :
    List (Letter × Nat) → List String
  | [] => []
  | (letter, v) :: rest =>
      trie.lineOf text margin rest.isEmpty letter v ::
        (trie.linesBelow text depth v (inset margin rest.isEmpty) ++
          linesBeside trie text depth margin rest)

theorem linesBelow_succ (trie : Trie α) (text : α → String) (depth v : Nat) (margin : String) :
    trie.linesBelow text (depth + 1) v margin =
      trie.linesBeside text depth margin (trie.successors v) := by
  have beside : ∀ total position places, position + places.length = total →
      ((places.zipIdx position).flatMap fun place =>
        trie.lineOf text margin (place.2 + 1 = total) place.1.1 place.1.2 ::
          trie.linesBelow text depth place.1.2 (inset margin (place.2 + 1 = total))) =
        trie.linesBeside text depth margin places := by
    intro total position places counted
    induction places generalizing position with
    | nil => rfl
    | cons place rest ih =>
        have last : decide (position + 1 = total) = rest.isEmpty := by
          rw [← counted, List.length_cons]
          cases rest with
          | nil => simp
          | cons _ _ => simp
        have counted : position + 1 + rest.length = total := by
          rw [← counted, List.length_cons]
          omega
        rw [List.zipIdx_cons, List.flatMap_cons, ih (position + 1) counted, linesBeside, ← last]
        rfl
  rw [← beside _ 0 (trie.successors v) (Nat.zero_add _)]
  simp only [linesBelow, lineOf, inset, decide_eq_true_eq]

/-- With this bound, the drawing below an entry comes to its end. -/
def Completes (trie : Trie α) (text : α → String) (depth v : Nat) : Prop :=
  ∀ margin, ∃ drawn, trie.Draws text margin (trie.successors v) drawn ∧
    trie.linesBelow text depth v margin = drawn.map (·.2)

theorem Completes.succ (each : ∀ w ∈ (trie.successors v).map (·.2), trie.Completes text depth w) :
    trie.Completes text (depth + 1) v := by
  intro margin
  rw [linesBelow_succ]
  generalize trie.successors v = places at each
  induction places with
  | nil => exact ⟨[], .nothing, rfl⟩
  | cons place rest ih =>
      obtain ⟨first, each⟩ := List.forall_mem_cons.mp each
      obtain ⟨below, inner, lines⟩ := first (inset margin rest.isEmpty)
      obtain ⟨beside, others, lines'⟩ := ih each
      refine ⟨_, .entry inner others, ?_⟩
      rw [linesBeside, lines, lines', List.map_cons, List.map_append]

theorem Linked.ncard_climbs_lt (linked : trie.Linked) (leads : trie.Leads v letter w)
    (lives : trie.Lives v) : {u | trie.Climbs u w}.ncard < {u | trie.Climbs u v}.ncard := by
  refine Set.ncard_lt_ncard ⟨fun u climbs => ?_, fun all => ?_⟩ (finite_climbs lives)
  · exact climbs.trans (linked.climbs_of_leads leads)
  · exact linked.not_climbs_of_leads leads (all .refl)

/-- As many steps are enough as vertices hang from the entry, itself included. -/
theorem Linked.completes (linked : trie.Linked) (text : α → String) (entry : trie.IsEntry v)
    (enough : {u | trie.Climbs u v}.ncard ≤ depth) : trie.Completes text depth v := by
  induction depth generalizing v with
  | zero =>
      have start : v ∈ {u | trie.Climbs u v} := .refl
      rw [(Set.ncard_eq_zero (finite_climbs entry.lives)).mp (Nat.le_zero.mp enough)] at start
      cases start
  | succ depth ih =>
      refine .succ fun w member => ?_
      obtain ⟨letter, leads⟩ := linked.mem_map_successors_iff.mp member
      have fewer := linked.ncard_climbs_lt leads entry.lives
      exact ih (linked.isEntry_of_leads leads) (by omega)

/-! ## Drawing a tree -/

/-- A whole tree, drawn line by line. -/
structure Drawing (trie : Trie α) (text : α → String) (drawn : List (Nat × String)) : Prop where
  draws : trie.Draws text "" (trie.successors root) drawn
  only : ∀ other, trie.Draws text "" (trie.successors root) other → other = drawn
  display : trie.display text = String.join (trie.rootLine text :: drawn.map (·.2))
  nodup : (root :: drawn.map (·.1)).Nodup
  mem_iff : ∀ v, v ∈ root :: drawn.map (·.1) ↔ trie.IsEntry v
  ordered : ∀ v, trie.IsEntry v →
    (v :: (trie.successors v).map (·.2)).Sublist (root :: drawn.map (·.1))

theorem Linked.exists_drawing (linked : trie.Linked) (text : α → String) :
    ∃ drawn, trie.Drawing text drawn := by
  have entry := linked.isEntry_root
  have enough : {u | trie.Climbs u Trie.root}.ncard ≤ trie.slots.size :=
    (ncard_climbs_le_size entry.lives).trans trie.size_le_slots
  obtain ⟨drawn, draws, lines⟩ := linked.completes text entry enough ""
  have listed : ∀ w ∈ (trie.successors Trie.root).map (·.2), trie.IsEntry w :=
    fun w member => linked.isEntry_of_mem_successors member
  have mem_iff : ∀ v, v ∈ Trie.root :: drawn.map (·.1) ↔ trie.IsEntry v := by
    intro v
    rw [List.mem_cons, draws.mem_iff linked listed]
    constructor
    · rintro (rfl | ⟨entry', _⟩)
      · exact entry
      · exact entry'
    · intro entry'
      have climbs := linked.climbs_to_root entry'.lives
      rcases (linked.climbs_iff_successors entry entry').mp climbs with same | below
      · exact .inl same
      · exact .inr ⟨entry', below⟩
  refine ⟨drawn, ?_⟩
  constructor
  case draws => exact draws
  case only => exact fun other draws' => draws'.unique draws
  case display => rw [display, lines, rootLine]
  case nodup =>
    refine List.nodup_cons.mpr ⟨fun member => ?_, draws.nodup linked listed
      (linked.successors_apart entry)⟩
    exact linked.not_mem_beneath_successors ((draws.mem_iff linked listed).mp member).2
  case mem_iff => exact mem_iff
  case ordered =>
    intro v entry'
    rcases List.mem_cons.mp ((mem_iff v).mpr entry') with rfl | member
    · exact draws.places_sublist.cons_cons _
    · exact (draws.successors_sublist member).cons _

/-- After any edits, every entry lists the entries that extend it, and the drawing shows each entry
once, before those that extend it. -/
theorem Edit.entries_listed_and_drawn (value : α) (edits : List (Edit α)) (text : α → String) :
    (edits.foldl apply (singleton value)).ListsSuccessors ∧
      ∃ drawn, (edits.foldl apply (singleton value)).Drawing text drawn := by
  have linked := (foldl_apply_proper edits (proper_singleton value)).linked
  exact ⟨linked.listsSuccessors, linked.exists_drawing text⟩

/-- The fork under 0 has no line. -/
example : ([.insert root (.pair 0 1) "b", .insert root (.one 3) "a"].foldl Edit.apply
    (singleton "")).display id = "ROOT   # \n├──3 → # a\n└──(0, 1) → # b\n" := by
  decide +kernel

end TeamPlanning.Trie
