import TeamPlanning.History.Build
import TeamPlanning.Proofs.History.Records

/-! # Breadth-first enumeration

A visit keeps its queue behind the vertices numbered so far, so the place of a vertex in that line
is the number of its history, before and after it is given. The child of history `n` by digit `d`
joins the line at place `n * base + d + 1`, which is its number. -/

set_option autoImplicit false

namespace TeamPlanning

variable {c : HistoryKind} {ν : Type}

namespace HistorySpace

namespace Visit

/-- The visit has numbered the first histories, and the next ones are filed below the vertices of
the queue. -/
structure Progress (numbering : Numbering c) (noted : Nat → ν → Prop) (visit : Visit c ν)
    (queue : List Nat) : Prop where
  chart : Chart numbering noted
    (fun index => if index < visit.vertices.size then some index else none) visit.trie
    (fun index => (visit.vertices.toList ++ queue)[index]?)
  tally : visit.tally.Tallies numbering.base visit.vertices.size

section Steps

variable {numbering : Numbering c} {noted : Nat → ν → Prop} {visit : Visit c ν} {v : Nat}
  {rest : List Nat}

theorem Progress.start (numbering : Numbering c) {note : ν} (first : noted 0 note) :
    Progress numbering noted
      ⟨Trie.singleton (Record.start note), #[], StageLayout.empty⟩ [Trie.root] := by
  refine ⟨?_, StageLayout.tallies_empty numbering.base⟩
  have spot : (fun index : Nat => ((#[] : Array Nat).toList ++ [Trie.root])[index]?) =
      fun index => if index = 0 then some Trie.root else none := by
    funext index
    cases index <;> simp
  rw [spot]
  exact (Chart.singleton numbering note first).congr_stamp fun _ _ _ => by simp

theorem Progress.number (progress : Progress numbering noted visit (v :: rest)) :
    ∃ note after, noted visit.vertices.size note ∧
      visit.number v = .ok (⟨numbering.history visit.vertices.size, note⟩, after) ∧
        after.vertices = visit.vertices.push v ∧ Progress numbering noted after rest := by
  have found : (visit.vertices.toList ++ v :: rest)[visit.vertices.size]? = some v := by
    simp
  obtain ⟨trie, assigned, chart⟩ := progress.chart.assign found (if_neg (Nat.lt_irrefl _))
  obtain ⟨note, fact, held⟩ := chart.entry _ v found
  have value : trie.value v = .ok ⟨numbering.history visit.vertices.size, note⟩ :=
    Trie.value_of_held? held
  have line : (visit.vertices.push v).toList ++ rest = visit.vertices.toList ++ v :: rest := by
    simp
  refine ⟨note, ⟨trie, visit.vertices.push v, visit.tally.note
    (numbering.history visit.vertices.size).length visit.vertices.size⟩, fact, ?_, rfl, ?_, ?_⟩
  · rw [Visit.number, bind_of_eq_ok assigned, bind_of_eq_ok value]
    rfl
  · simp only [line, Array.size_push]
    refine chart.congr_stamp fun index _ _ => ?_
    by_cases here : index = visit.vertices.size
    · simp [here]
    · rw [Function.update_of_ne here]
      simp only [Nat.lt_succ_iff_lt_or_eq, here, or_false]
  · have noted := progress.tally.note numbering.inhabited
    rw [Numbering.length_spell, ← Numbering.length_history] at noted
    simpa using noted

private theorem update_length (filed : List Nat) (v : Nat) :
    Function.update (fun place : Nat => filed[place]?) filed.length (some v) =
      fun place => (filed ++ [v])[place]? := by
  funext place
  rw [Function.update_apply]
  by_cases last : place = filed.length
  · simp [last]
  · rw [if_neg last]
    rcases Nat.lt_or_gt_of_ne last with early | late
    · rw [List.getElem?_append_left early]
    · rw [List.getElem?_eq_none (Nat.le_of_lt late), List.getElem?_eq_none]
      rwa [List.length_append, List.length_singleton]

theorem Progress.file {queue : List Nat} (progress : Progress numbering noted visit queue)
    {index digit : Nat} (found : (visit.vertices.toList ++ queue)[index]? = some v)
    (below : digit < numbering.base)
    (place : visit.vertices.size + queue.length = index * numbering.base + digit + 1) {note : ν}
    (fact : noted (index * numbering.base + digit + 1) note) :
    ∃ child trie, visit.trie.insert v (Symbol.ofDigit c digit numbering.alphabet).letter
        ⟨(numbering.history index).extend index (Symbol.ofDigit c digit numbering.alphabet), note⟩ =
          .ok (child, trie) ∧
      Progress numbering noted { visit with trie } (queue ++ [child]) := by
  have known := numbering.known_ofDigit below
  have number := numbering.extend_ofDigit below index
  rw [← number] at place fact
  have absent : (visit.vertices.toList ++ queue)[numbering.extend index
      (Symbol.ofDigit c digit numbering.alphabet)]? = none := by
    rw [List.getElem?_eq_none_iff, List.length_append, Array.length_toList, place]
  obtain ⟨child, trie, inserted, chart⟩ := progress.chart.insert found known absent
    (if_neg (by omega)) fact
  rw [Numbering.history_extend known] at inserted
  refine ⟨child, trie, inserted, ?_, progress.tally⟩
  have last : numbering.extend index (Symbol.ofDigit c digit numbering.alphabet) =
      (visit.vertices.toList ++ queue).length := by
    rw [List.length_append, Array.length_toList, place]
  rw [last, update_length, List.append_assoc] at chart
  exact chart

end Steps

section Stages

variable {numbering : Numbering c} {note : ν} {noteOf : ν → Nat → Symbol c → Except Fault ν}
  {vertices : Array Nat} {visit : Visit c ν} {v index : Nat} {rest : List Nat}

/-- The children of a history by the digits left are still to be filed. -/
structure Filing (numbering : Numbering c) (noted : Nat → ν → Prop) (vertices : Array Nat)
    (rest : List Nat) (index : Nat) (digits : List Nat) (state : Visit c ν × Array Nat) : Prop where
  progress : Progress numbering noted state.1 (rest ++ state.2.toList)
  numbered : state.1.vertices = vertices
  filed : ∃ filed, digits = List.range' filed digits.length ∧
    filed + digits.length = numbering.base ∧
      vertices.size + rest.length + state.2.size = index * numbering.base + filed + 1

theorem Filing.extend {held : ν} {digit : Nat} {digits : List Nat} {state : Visit c ν × Array Nat}
    (filing : Filing numbering (numbering.Noted note noteOf) vertices rest index (digit :: digits)
      state)
    (found : vertices[index]? = some v) (fact : numbering.Noted note noteOf index held)
    (inside : index * numbering.base + numbering.base < numbering.total) :
    Meets (Visit.extend noteOf numbering.alphabet v index ⟨numbering.history index, held⟩ state
        digit)
      (Filing numbering (numbering.Noted note noteOf) vertices rest index digits)
      (numbering.Refused (numbering.Noted note noteOf) noteOf) := by
  obtain ⟨visit, queue⟩ := state
  obtain ⟨progress, rfl, filed, listed, sum, place⟩ := filing
  rw [List.length_cons, List.range'_succ] at listed
  obtain ⟨rfl, listed⟩ := List.cons.inj listed
  rw [List.length_cons] at sum
  simp only at place
  have below : digit < numbering.base := by omega
  have known := numbering.known_ofDigit below
  have number := numbering.extend_ofDigit below index
  simp only [Visit.extend]
  cases answered : noteOf held index (Symbol.ofDigit c digit numbering.alphabet) with
  | error fault =>
      rw [bind_of_eq_error rfl]
      exact ⟨index, _, held, fact, known, by omega, answered⟩
  | ok next =>
      have noted := fact.extend known answered
      rw [number] at noted
      have spot : (visit.vertices.toList ++ (rest ++ queue.toList))[index]? = some v := by
        have early : index < visit.vertices.size := (Array.getElem?_eq_some_iff.mp found).1
        rw [List.getElem?_append_left (by simpa using early), Array.getElem?_toList, found]
      obtain ⟨child, trie, inserted, after⟩ := progress.file spot below
        (by simpa [Nat.add_assoc] using place) noted
      rw [bind_of_eq_ok rfl, Record.extend, bind_of_eq_ok inserted]
      refine ⟨?_, rfl, digit + 1, listed, by omega, ?_⟩
      · simpa using after
      · simp only [Array.size_push]
        omega

/-- The vertices left of a stage are still to be expanded, and the next stage joins the queue. All
histories of the two stages up to `finish` are in line. -/
structure Leveling (numbering : Numbering c) (noted : Nat → ν → Prop) (finish : Nat)
    (level : List Nat) (state : Visit c ν × Array Nat) : Prop where
  progress : Progress numbering noted state.1 (level ++ state.2.toList)
  counted : state.1.vertices.size + level.length = finish
  filed : finish + state.2.size = state.1.vertices.size * numbering.base + 1

theorem Leveling.expand {finish : Nat} {state : Visit c ν × Array Nat}
    (leveling : Leveling numbering (numbering.Noted note noteOf) finish (v :: rest) state)
    (inside : finish * numbering.base < numbering.total) :
    Meets (Visit.expand noteOf numbering.alphabet numbering.base state v)
      (Leveling numbering (numbering.Noted note noteOf) finish rest)
      (numbering.Refused (numbering.Noted note noteOf) noteOf) := by
  obtain ⟨visit, queue⟩ := state
  obtain ⟨progress, counted, filed⟩ := leveling
  simp only [List.length_cons] at counted filed
  have line : Progress numbering (numbering.Noted note noteOf) visit
      (v :: (rest ++ queue.toList)) := progress
  obtain ⟨held, after, fact, numbered, vertices, progress⟩ := line.number
  have size : after.vertices.size = visit.vertices.size + 1 := by
    rw [vertices, Array.size_push]
  have room : visit.vertices.size * numbering.base + numbering.base ≤ finish * numbering.base := by
    rw [← Nat.succ_mul]
    exact Nat.mul_le_mul_right _ (by omega)
  simp only [Visit.expand]
  rw [bind_of_eq_ok numbered]
  have filing : Filing numbering (numbering.Noted note noteOf) after.vertices rest
      visit.vertices.size (List.range numbering.base) (after, queue) := by
    refine ⟨progress, rfl, 0, ?_, ?_, ?_⟩
    · rw [List.length_range, List.range_eq_range']
    · rw [List.length_range, Nat.zero_add]
    · simp only
      omega
  refine (Meets.foldlM _ (fun digit digits state filing => ?_) filing).imp ?_
  · exact filing.extend (by simp [vertices]) fact (by omega)
  · intro given given'
    obtain ⟨done, longer⟩ := given
    obtain ⟨progress, same, filed, _, sum, place⟩ := given'
    rw [List.length_nil] at sum
    simp only at same place
    refine ⟨progress, by rw [same]; omega, ?_⟩
    simp only [same, size, Nat.succ_mul]
    omega

/-- Stage by stage, all histories are numbered. -/
theorem stages_meets {further : Nat} (stage : Nat)
    (planned : stage + further + 1 = numbering.horizon) {level : List Nat}
    (progress : Progress numbering (numbering.Noted note noteOf) visit level)
    (started : visit.vertices.size = Shortlex.first numbering.base stage)
    (counted : visit.vertices.size + level.length = Shortlex.first numbering.base (stage + 1)) :
    Meets (stages noteOf numbering.alphabet numbering.base further level visit)
      (fun after => Progress numbering (numbering.Noted note noteOf) after [] ∧
        after.vertices.size = numbering.total)
      (numbering.Refused (numbering.Noted note noteOf) noteOf) := by
  induction further generalizing stage level visit with
  | zero =>
      refine Meets.imp (Meets.foldlM (fun level visit =>
        Progress numbering (numbering.Noted note noteOf) visit level ∧
          visit.vertices.size + level.length = numbering.total) ?_ ⟨progress, ?_⟩) ?_
      · intro v rest visit given
        obtain ⟨progress, counted⟩ := given
        obtain ⟨held, after, _, numbered, vertices, progress⟩ := progress.number
        rw [bind_of_eq_ok numbered]
        refine ⟨progress, ?_⟩
        rw [vertices, Array.size_push, ← counted, List.length_cons]
        omega
      · rw [counted, Numbering.total, ← planned, Nat.add_zero]
      · intro after given
        obtain ⟨progress, counted⟩ := given
        exact ⟨progress, by simpa using counted⟩
  | succ further ih =>
      have next : Shortlex.first numbering.base (stage + 1 + 1) =
        Shortlex.first numbering.base (stage + 1) * numbering.base + 1 := rfl
      have here : Shortlex.first numbering.base (stage + 1) =
        Shortlex.first numbering.base stage * numbering.base + 1 := rfl
      have reached : Shortlex.first numbering.base (stage + 1 + 1) ≤ numbering.total :=
        Shortlex.first_mono numbering.base (by omega)
      have leveling : Leveling numbering (numbering.Noted note noteOf)
          (Shortlex.first numbering.base (stage + 1)) level (visit, #[]) :=
        ⟨by simpa using progress, counted, by simp only [started]; exact here⟩
      refine Meets.bind (Meets.foldlM _ (fun v rest state leveling => ?_) leveling) ?_
      · exact leveling.expand (by omega)
      · intro given given'
        obtain ⟨after, queue⟩ := given
        obtain ⟨progress, counted, filed⟩ := given'
        simp only [List.length_nil, Nat.add_zero] at counted filed
        refine ih (stage + 1) (by omega) progress counted ?_
        rw [counted] at filed ⊢
        simpa [next] using filed

end Stages

end Visit

variable {numbering : Numbering c}

/-- An enumeration ends with all records, unless a note is refused on the way. Its tally never
differs from the closed form. -/
theorem enumerate_meets (numbering : Numbering c) (planned : 0 < numbering.horizon) (note : ν)
    (noteOf : ν → Nat → Symbol c → Except Fault ν) :
    Meets (enumerate numbering.alphabet numbering.horizon note noteOf)
      (fun space => space.eager = true ∧ space.Charted numbering (numbering.Noted note noteOf))
      (numbering.Refused (numbering.Noted note noteOf) noteOf) := by
  have geometric := StageLayout.geometric_eq_ok_iff.mpr ⟨numbering.stored, numbering.fits, rfl⟩
  have sum : Bounded.geometricSum numbering.base numbering.horizon = .ok numbering.total :=
    Bounded.geometricSum_eq_ok_iff.mpr ⟨numbering.fits, rfl⟩
  rw [enumerate, bind_of_eq_ok numbering.based, bind_of_eq_ok geometric]
  refine Meets.bind (Visit.stages_meets 0 (by omega)
    (Visit.Progress.start numbering .empty) rfl (by simp [Shortlex.first])) ?_
  intro visit given
  obtain ⟨progress, size⟩ := given
  have tally := progress.tally
  rw [size] at tally
  have finished : visit.tally.finish numbering.total =
      StageLayout.closed numbering.base numbering.horizon :=
    tally.finish numbering.inhabited numbering.fits
  simp only [size, finished, ne_eq, not_true_eq_false, ↓reduceIte]
  rw [bind_of_eq_ok sum, if_neg (not_not_intro rfl)]
  refine ⟨rfl, ⟨rfl, rfl, rfl⟩, ?_, ?_, ?_, ?_⟩
  · have chart := progress.chart
    simp only [List.append_nil, Array.getElem?_toList] at chart
    refine chart.congr_stamp fun index v found => ?_
    exact if_pos (Array.getElem?_eq_some_iff.mp found).1
  · intro index v found
    have inside := (Array.getElem?_eq_some_iff.mp found).1
    omega
  · intro _ index inside
    rw [← size] at inside
    exact ⟨_, Array.getElem?_eq_getElem inside⟩
  · intro lazy
    cases lazy

end HistorySpace

end TeamPlanning
