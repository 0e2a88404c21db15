import TeamPlanning.Proofs.History.Demand
import TeamPlanning.Proofs.History.InRange
import TeamPlanning.Proofs.History.Splitting

/-! # Histories are safe to ask

A space that was built answers every question and serves every request for a record without a trap
and without a result that is too large; so does a team, in every combination of modes. A request adds
records to the space, so what was checked when it was built has to be kept along the way. -/

set_option autoImplicit false

namespace TeamPlanning

open Trapping (Gives)

variable {c : HistoryKind} {ν : Type}

namespace HistorySpace

variable {space : HistorySpace c ν} {numbering : Numbering c} {noted : Nat → ν → Prop}
  {horizon : Nat} {noteOf : ν → Nat → Symbol c → Except Fault ν}
  {trapping : ν → Nat → Symbol c → Trapping ν}

theorem Charted.guarded (charted : space.Charted numbering noted) :
    space.Guarded numbering.horizon where
  reads := charted.follows.reads
  layout := by rw [charted.shaped.layout, charted.shaped.base]
  fits := by
    rw [charted.shaped.base]
    exact numbering.fits
  stored := numbering.stored
  indexOf word := (charted.follows.indexOf word).neverExceeds

theorem Barren.guarded (barren : space.Barren horizon) : space.Guarded horizon where
  reads := barren.reads
  layout := by rw [barren.layout, barren.base]
  fits := by
    rw [barren.base]
    exact layout_fits_of_no_symbols barren.planned
  stored := barren.stored
  indexOf word := by
    cases word with
    | nil => exact neverExceeds_of_eq_ok barren.indexOf_nil
    | cons symbol word =>
        obtain ⟨cause, failed⟩ := barren.indexOf_cons symbol word
        rw [failed]
        exact neverExceeds_missing cause

/-! ## Records on demand -/

/-- A request is served without a trap if the records along its word are. -/
theorem Guarded.gives_hold (guarded : space.Guarded horizon) {index : Nat}
    (along : ∀ word, space.records.get? index = none → space.wordOf index = .ok word →
      ∃ outcome longer, space.holdAlong noteOf word 0 0 Trie.root = (outcome, longer) ∧
        Trapping.holdAlong trapping word 0 0 Trie.root space = some (outcome, longer) ∧
          longer.Guarded horizon) :
    Trapping.hold space index trapping = some (space.hold index noteOf) := by
  rw [Trapping.hold, hold]
  cases held : space.records.get? index with
  | some record =>
      rw [(guarded.gives_record index).run_eq]
      rfl
  | none =>
      rw [(guarded.gives_wordOf index).run_eq]
      cases spelled : space.wordOf index with
      | error fault => rfl
      | ok word =>
          obtain ⟨outcome, longer, walked, walked', guarded'⟩ := along word held spelled
          simp only [Option.isSome_none, Bool.false_eq_true, ↓reduceIte, Option.bind_eq_bind,
            Option.bind_some, walked, walked']
          cases outcome with
          | error fault => rfl
          | ok _ =>
              dsimp only
              rw [(guarded'.gives_record index).run_eq]
              rfl

theorem Barren.gives_hold (barren : space.Barren horizon) (index : Nat) :
    Trapping.hold space index trapping = some (space.hold index noteOf) := by
  refine barren.guarded.gives_hold fun word absent spelled => ?_
  have answers := wordOf_of_no_symbols barren.planned barren.base barren.layout index
  have held := barren.held
  cases index with
  | zero =>
      rw [absent] at held
      cases held
  | succ index =>
      obtain ⟨cause, failed⟩ := answers
      rw [failed] at spelled
      cases spelled

section Records

variable (agree : ∀ held index symbol,
  Gives (trapping held index symbol) (noteOf held index symbol))
include agree

/-- One step of a request: the number of the next history is in range because the history itself is,
and so is the length of its record. -/
theorem Charted.gives_descend {current v : Nat} {symbol : Symbol c}
    (charted : space.Charted numbering noted) (found : space.records.vertex? current = some v)
    (known : numbering.Known symbol) (inside : numbering.extend current symbol < numbering.total) :
    Gives (Trapping.descend trapping symbol (numbering.word current).length current v space)
      (space.trie.getOrInsert v symbol.letter (numbering.entry noteOf current symbol) >>=
        fun made => pure (numbering.extend current symbol, made.1, made.2)) := by
  have guarded := charted.guarded
  have present := charted.range current v found
  obtain ⟨_, _, reached, early⟩ :=
    guarded.covers (charted.follows.stageOf_eq_ok_iff.mpr ⟨present, rfl⟩)
  have within : symbol.within space.alphabet = true := by
    rw [charted.shaped.alphabet]
    exact known
  have counted : Gives (Trapping.successorNumber space current (numbering.word current).length
      (symbol.digit space.alphabet)) (.ok (numbering.extend current symbol)) := by
    rw [← charted.shaped.successorNumber_eq known inside]
    exact guarded.gives_successorNumber (Nat.lt_trans present numbering.fits) reached early
  refine (Symbol.Trapping.gives_digit guarded.reads.based within).value_bind ?_
  refine counted.value_bind ?_
  refine (Trie.Trapping.gives_getOrInsert fun record held => ?_).bind
    fun made _ => Trapping.gives_pure _
  refine (agree record.note current symbol).bind fun note _ => ?_
  have length : record.history.length = (numbering.word current).length := by
    obtain ⟨own, _, entry⟩ := charted.chart.entry current v found
    rw [Trie.value_of_held? entry] at held
    cases held
    exact numbering.length_history current
  have extended : Gives (Trapping.extend record current symbol note)
      (.ok (record.extend current symbol note)) :=
    (Trapping.gives_add (by omega)).value_bind (Trapping.gives_pure _)
  exact extended.value_bind (Trapping.gives_pure _)

theorem Charted.gives_holdAlong {current v : Nat} {word : List (Symbol c)}
    (charted : space.Charted numbering noted) (lazy : space.eager = false)
    (inherited : numbering.Inherited noted noteOf)
    (found : space.records.vertex? current = some v) (proper : numbering.Proper word)
    (inside : word.foldl numbering.extend current < numbering.total) :
    Trapping.holdAlong trapping word (numbering.word current).length current v space =
      some (space.holdAlong noteOf word (numbering.word current).length current v) := by
  induction word generalizing space current v with
  | nil => rfl
  | cons symbol word ih =>
      obtain ⟨known, proper⟩ := List.forall_mem_cons.mp proper
      have next : numbering.extend current symbol < numbering.total :=
        Nat.lt_of_le_of_lt (numbering.le_foldl_extend _ word) inside
      have made := charted.getOrInsert_meets inherited found known
      have given := charted.gives_descend agree found known next
      rw [Trapping.holdAlong, charted.holdAlong_eq_entry known next]
      cases filed : space.trie.getOrInsert v symbol.letter
          (numbering.entry noteOf current symbol) with
      | error fault =>
          rw [filed] at given
          rw [given.run_eq]
          rfl
      | ok child =>
          rw [filed] at made given
          -- The space is charted again with the new record, whose vertex is where the rest starts.
          obtain ⟨chart, _, _⟩ := made
          obtain ⟨vertices, sparse⟩ := charted.sparse lazy
          have spots := NumberedTrie.vertex?_remember ⟨child.2, space.records.vertices⟩ sparse
            (numbering.extend current symbol) child.1
          have rest := ih (charted.remember lazy next chart) lazy
            ((congrFun spots _).trans (Function.update_self ..)) proper inside
          rw [Numbering.word_extend known, List.length_append, List.length_singleton] at rest ⊢
          rw [given.run_eq]
          exact rest

theorem Charted.gives_hold (charted : space.Charted numbering noted)
    (inherited : numbering.Inherited noted noteOf) (index : Nat) :
    Trapping.hold space index trapping = some (space.hold index noteOf) := by
  refine charted.guarded.gives_hold fun word absent spelled => ?_
  have missing : ¬ space.Holds index := by
    rintro ⟨v, found⟩
    obtain ⟨_, _, present⟩ := charted.get?_of_vertex? found
    rw [absent] at present
    cases present
  obtain ⟨inside, rfl⟩ :=
    Numbering.word?_eq_some_iff.mp ((charted.shaped.wordOf_answers index).eq_ok_iff.mp spelled)
  have lazy := charted.lazy_of_absent (Charted.vertex?_of_absent missing) inside
  have whole := numbering.number_word index
  rw [numbering.number_eq_foldl] at whole
  have proper := numbering.word_proper index
  have inside' : (numbering.word index).foldl numbering.extend 0 < numbering.total := by
    rwa [whole]
  have gives := charted.gives_holdAlong agree lazy inherited charted.chart.root proper inside'
  obtain ⟨outcome, longer, walked, ends⟩ :=
    charted.holdAlong_cases lazy inherited charted.chart.root proper inside'
  rw [walked] at gives
  rw [Numbering.word_zero, List.length_nil] at walked gives
  refine ⟨outcome, longer, walked, gives, ?_⟩
  rcases ends with ⟨_, _, _, _, _, _, _, grown, _⟩ | ⟨_, grown⟩
  all_goals exact grown.charted.guarded

end Records

theorem Charted.neverExceeds_hold (charted : space.Charted numbering noted)
    (inherited : numbering.Inherited noted noteOf)
    (small : ∀ held index symbol, NeverExceeds (noteOf held index symbol)) (index : Nat) :
    NeverExceeds (space.hold index noteOf).1 := by
  obtain ⟨outcome, longer, held, _, _, meets⟩ := charted.hold inherited index
  rw [held]
  intro fault failed
  rw [show outcome = _ from failed] at meets
  rcases meets with ⟨_, _, _, _, _, _, refused⟩ | ⟨_, _, rfl⟩
  · exact small _ _ _ fault refused
  · exact ⟨nofun, nofun⟩

theorem Barren.neverExceeds_hold (barren : space.Barren horizon) (index : Nat) :
    NeverExceeds (space.hold index noteOf).1 := by
  rw [HistorySpace.hold]
  cases index with
  | zero =>
      rw [if_pos barren.held]
      exact space.neverExceeds_record 0
  | succ index =>
      obtain ⟨cause, failed⟩ :=
        wordOf_of_no_symbols barren.planned barren.base barren.layout (index + 1)
      split
      · exact space.neverExceeds_record _
      · rw [failed]
        exact neverExceeds_missing cause

/-! ## Spaces that were built -/

/-- A space that was built over an alphabet, with any records made on demand since. -/
def Intact (space : HistorySpace c ν) (alphabet : Alphabet) (horizon : Nat) : Prop :=
  space.alphabet = alphabet ∧ (space.Barren horizon ∨
    ∃ numbering : Numbering c, numbering.horizon = horizon ∧
      space.Charted numbering fun _ _ => True)

/-- No question and no request for a record makes the machine stop, or is refused because a result
is too large or the machine halts; if the notes that are offered are safe to make. -/
structure Safe (space : HistorySpace c ν) : Prop where
  record : ∀ index, Trapping.Safe (Trapping.record space index) (space.record index)
  answer : ∀ {α : Type} (query : HistoryQuery c α),
    Trapping.Safe (Trapping.answer space query) (space.answer query)
  hold : ∀ trapping noteOf index,
    (∀ held index symbol, Trapping.Safe (trapping held index symbol) (noteOf held index symbol)) →
      Trapping.hold space index trapping = some (space.hold index noteOf) ∧
        NeverExceeds (space.hold index noteOf).1

namespace Intact

variable {alphabet : Alphabet}

theorem of_created {note : ν} (planned : 1 ≤ horizon)
    (created : enumerate alphabet horizon note noteOf = .ok space ∨
      closedForm alphabet horizon note = .ok space) : space.Intact alphabet horizon := by
  have same := alphabet_of_created created
  have based := (reads_of_created planned created).based
  rw [same] at based
  refine ⟨same, ?_⟩
  cases base : space.base with
  | zero =>
      rw [base] at based
      exact .inl (barren_of_created based planned created)
  | succ digits =>
      rw [base] at based
      obtain ⟨numbering, rfl, rfl⟩ := exists_numbering based (Nat.succ_pos digits) created
      refine .inr ⟨numbering, rfl, ?_⟩
      rcases created with created | created
      · exact (charted_of_enumerate numbering planned created).2.imp fun _ _ _ => trivial
      · have made : ∃ made : HistorySpace c ν,
            closedForm numbering.alphabet numbering.horizon note = .ok made ∧
              made.eager = false ∧ made.Charted numbering fun _ _ => True :=
          Charted.closedForm numbering planned _ trivial
        obtain ⟨_, described, _, charted⟩ := made
        rw [created] at described
        cases described
        exact charted

variable (intact : space.Intact alphabet horizon)
include intact

theorem guarded : space.Guarded horizon := by
  obtain ⟨_, barren | ⟨numbering, rfl, charted⟩⟩ := intact
  · exact barren.guarded
  · exact charted.guarded

theorem hold (index : Nat) (noteOf : ν → Nat → Symbol c → Except Fault ν) :
    (space.hold index noteOf).2.Intact alphabet horizon := by
  obtain ⟨same, barren | ⟨numbering, rfl, charted⟩⟩ := intact
  · rw [barren.hold]
    exact ⟨same, .inl barren⟩
  · obtain ⟨outcome, longer, held, charted', _⟩ :=
      charted.hold (numbering.inherited_true noteOf) index
    rw [held]
    exact ⟨by rw [charted'.shaped.alphabet, ← charted.shaped.alphabet, same],
      .inr ⟨numbering, rfl, charted'⟩⟩

theorem holdAll (requests : List (Request c ν)) :
    (space.holdAll requests).Intact alphabet horizon := by
  induction requests generalizing space with
  | nil => exact intact
  | cons request requests ih => exact ih (intact.hold request.index request.noteOf)

theorem safe : space.Safe := by
  have guarded := intact.guarded
  refine ⟨guarded.safe_record, guarded.safe_answer, fun trapping noteOf index offered => ?_⟩
  have agree := fun held index symbol => (offered held index symbol).gives
  obtain ⟨_, barren | ⟨numbering, rfl, charted⟩⟩ := intact
  · exact ⟨barren.gives_hold index, barren.neverExceeds_hold index⟩
  · have inherited := numbering.inherited_true noteOf
    exact ⟨charted.gives_hold agree inherited index,
      charted.neverExceeds_hold inherited (fun held index symbol =>
        (offered held index symbol).small) index⟩

end Intact

end HistorySpace

/-! ## Teams -/

namespace TeamSpace

variable {space : TeamSpace c} {agents : List (HistorySpace c Unit)} {alphabets : List Alphabet}
  {histories : HistorySpace c Unit} {horizon : Nat}

theorem safe_extendIndividual (guarded : ∀ histories ∈ agents, histories.Guarded horizon)
    (alphabets : List Alphabet) (individual : List Nat) (symbol : Symbol c) :
    Trapping.Safe (Trapping.extendIndividual agents alphabets individual symbol)
      (extendIndividual agents alphabets individual symbol) := by
  refine (Symbol.Trapping.safe_parts symbol alphabets).bind fun parts _ => ?_
  refine Trapping.Safe.mapM fun item member => ?_
  obtain ⟨⟨histories, index⟩, part⟩ := item
  have seated := (List.of_mem_zip (List.of_mem_zip member).1).1
  exact (guarded histories seated).safe_answer (.successor index part)

theorem safe_symbolsAt (guarded : histories.Guarded horizon) (agent index stage : Nat) :
    Trapping.Safe (Trapping.symbolsAt histories agent index stage)
      (symbolsAt histories agent index stage) := by
  refine (guarded.safe_answer (.symbols index)).bind fun word _ => ?_
  split
  · exact Trapping.safe_pure word
  · exact Trapping.safe_missing _

/-- The histories that are joined have the stage asked for, and symbols of the agent. -/
theorem proper_of_symbolsAt (guarded : histories.Guarded horizon) {agent index stage : Nat}
    {word : List (Symbol c)} (read : symbolsAt histories agent index stage = .ok word) :
    word.length = stage ∧ ∀ symbol ∈ word, symbol.within histories.alphabet = true := by
  obtain ⟨word', spelled, accepted⟩ := bind_eq_ok_iff.mp read
  split at accepted
  · rename_i long
    cases accepted
    obtain ⟨inside, rfl⟩ := guarded.reads.symbols_eq_ok_iff.mp spelled
    exact ⟨long, (guarded.reads.proper index inside).1⟩
  · cases accepted

theorem partsWithin_column {words : List (List (Symbol c))} {t : Nat}
    (proper : List.Forall₂ (fun word alphabet =>
      t < word.length ∧ ∀ symbol ∈ word, symbol.within alphabet = true) words alphabets) :
    Symbol.PartsWithin (words.filterMap (·[t]?)) alphabets := by
  induction proper with
  | nil => exact .nil
  | cons first _ ih =>
      obtain ⟨long, within⟩ := first
      rw [List.filterMap_cons_some (f := (·[t]?)) (List.getElem?_eq_getElem long)]
      exact .cons (within _ (List.getElem_mem long)) ih

/-- A team that was built, with any records of joint histories made on demand since. -/
structure Guarded (space : TeamSpace c) (horizon : Nat) : Prop where
  joint : Alphabet.joint space.alphabets = .ok space.team.alphabet
  agents : List.Forall₂ (fun histories alphabet => histories.Intact alphabet horizon)
    space.agents space.alphabets
  team : space.team.Intact space.team.alphabet horizon

/-- No question to the team or about its agents and no request for a joint record makes the machine
stop, or is refused because a result is too large or the machine halts. -/
structure Safe (space : TeamSpace c) : Prop where
  agents : ∀ histories ∈ space.agents, histories.Safe
  team : space.team.Safe
  answer : ∀ {α : Type} (query : TeamQuery c α),
    Trapping.Safe (Trapping.answer space query) (space.answer query)
  hold : ∀ index, Trapping.hold space index = some (space.hold index) ∧
    NeverExceeds (space.hold index).1

namespace Guarded

theorem of_create {eagerIndividual eagerJoint : Bool} (planned : 1 ≤ horizon)
    (created : create alphabets horizon eagerIndividual eagerJoint = .ok space) :
    space.Guarded horizon := by
  have joined := joint_of_create created
  obtain ⟨same, seated, joint, _, teamed⟩ := create_eq_ok_iff.mp created
  refine ⟨same ▸ joined, ?_, ?_⟩
  · rw [same]
    exact (mapM_eq_ok_iff.mp seated).flip.imp fun histories alphabet built =>
      .of_created planned (created_of_agentSpace built)
  · rw [HistorySpace.alphabet_of_created teamed.created]
    exact .of_created planned teamed.created

variable (guarded : space.Guarded horizon)
include guarded

theorem hold (index : Nat) : (space.hold index).2.Guarded horizon := by
  have team := guarded.team.hold index fun individual _ symbol =>
    extendIndividual space.agents space.alphabets individual symbol
  have joint := guarded.joint
  rw [← team.1] at joint
  exact ⟨joint, guarded.agents, team.1 ▸ team⟩

theorem holdAll (requests : List Nat) : (space.holdAll requests).Guarded horizon := by
  induction requests generalizing space with
  | nil => exact guarded
  | cons index requests ih => exact ih (guarded.hold index)

theorem intact : ∀ histories ∈ space.agents, ∃ alphabet, histories.Intact alphabet horizon := by
  intro histories member
  obtain ⟨place, found⟩ := List.getElem?_of_mem member
  obtain ⟨matched, each⟩ := forall₂_iff_getElem?.mp guarded.agents
  have inside := (List.getElem?_eq_some_iff.mp found).1
  exact ⟨_, each place histories _ found (List.getElem?_eq_getElem (by rwa [matched]))⟩

theorem seated : ∀ histories ∈ space.agents, histories.Guarded horizon := by
  intro histories member
  obtain ⟨_, intact⟩ := guarded.intact histories member
  exact intact.guarded

theorem safe_spell (index : Nat) :
    Trapping.Safe (Trapping.spell space index) (do
      let parts ← (← space.team.symbols index).mapM (·.parts space.alphabets)
      space.agents.zipIdx.mapM fun (histories, agent) =>
        histories.indexOf (parts.filterMap (·[agent]?))) := by
  refine (guarded.team.guarded.safe_answer (.symbols index)).bind fun word _ => ?_
  refine (Trapping.Safe.mapM fun symbol _ =>
    Symbol.Trapping.safe_parts symbol space.alphabets).bind fun parts _ => ?_
  refine Trapping.Safe.mapM fun item member => ?_
  obtain ⟨histories, agent⟩ := item
  exact (guarded.seated histories (List.fst_mem_of_mem_zipIdx member)).safe_answer
    (.indexOf (parts.filterMap (·[agent]?)))

theorem safe_toIndividual (index : Nat) :
    Trapping.Safe (Trapping.toIndividual space index) (space.toIndividual index) := by
  have read := guarded.team.guarded.safe_record index
  have spelled := guarded.safe_spell index
  constructor
  case gives =>
    rw [Gives, Trapping.toIndividual, TeamSpace.toIndividual, ExceptT.run_mk, read.gives.run_eq]
    cases space.team.record index with
    | ok record => rfl
    | error fault =>
        cases fault with
        | notHeld _ _ => exact spelled.gives
        | _ => rfl
  case small =>
    rw [TeamSpace.toIndividual]
    have small := read.small
    generalize space.team.record index = outcome at small
    cases outcome with
    | ok record => exact neverExceeds_of_eq_ok rfl
    | error fault =>
        cases fault with
        | notHeld _ _ => exact spelled.small
        | _ =>
            intro other failed
            cases failed
            exact small _ rfl

theorem partsWithin {stage : Nat} {individual : List Nat} {words : List (List (Symbol c))}
    (matched : individual.length = space.agents.length)
    (read : ((space.agents.zip individual).zipIdx.mapM fun ((histories, index), agent) =>
      symbolsAt histories agent index stage) = .ok words) {t : Nat} (early : t < stage) :
    Symbol.PartsWithin (words.filterMap (·[t]?)) space.alphabets := by
  refine partsWithin_column (forall₂_iff_getElem?.mpr ?_)
  obtain ⟨long, each⟩ := mapM_eq_ok_iff_getElem?.mp read
  obtain ⟨seats, seated⟩ := forall₂_iff_getElem?.mp guarded.agents
  rw [List.length_zipIdx, List.length_zip, matched, Nat.min_self] at long
  refine ⟨seats.trans long.symm, fun place word alphabet found sized => ?_⟩
  have inside := (List.getElem?_eq_some_iff.mp found).1
  rw [long] at inside
  have present := List.getElem?_eq_getElem inside
  have given := List.getElem?_eq_getElem (matched ▸ inside)
  have listed : (space.agents.zip individual).zipIdx[place]? =
      some ((space.agents[place], individual[place]), place) := by
    rw [List.getElem?_zipIdx, show (space.agents.zip individual)[place]? = some (_, _) from
      List.getElem?_zip_eq_some.mpr ⟨present, given⟩, Option.map_some, Nat.zero_add]
  have intact := seated place _ alphabet present sized
  obtain ⟨staged, within⟩ :=
    proper_of_symbolsAt intact.guarded (each place _ word listed found)
  rw [intact.1] at within
  exact ⟨staged ▸ early, within⟩

theorem safe_toJoint (stage : Nat) (individual : List Nat) :
    Trapping.Safe (Trapping.toJoint space stage individual)
      (space.toJoint stage individual) := by
  rw [Trapping.toJoint, toJoint]
  by_cases matched : individual.length = space.agents.length
  · simp only [if_neg (not_not_intro matched)]
    refine Trapping.Safe.bind (Trapping.Safe.mapM fun item member => ?_) fun words read => ?_
    · obtain ⟨⟨histories, index⟩, agent⟩ := item
      have seat := (List.of_mem_zip (List.fst_mem_of_mem_zipIdx member)).1
      exact safe_symbolsAt (guarded.seated histories seat) agent index stage
    · refine Trapping.Safe.bind (Trapping.Safe.mapM fun t early => ?_) fun joint _ => ?_
      · -- The own histories have the stage asked for, so the parts at each of its steps can be joined.
        obtain ⟨symbol, split⟩ := Symbol.exists_parts
          (guarded.partsWithin matched read (List.mem_range.mp early))
        exact Trapping.safe_lift (neverExceeds_of_eq_ok (Symbol.ofParts_of_parts guarded.joint split))
      · exact guarded.team.guarded.safe_answer (.indexOf joint)
  · simp only [if_pos matched]
    exact (Trapping.safe_missing _).bind fun _ failed => by cases failed

theorem safe_answer {α : Type} (query : TeamQuery c α) :
    Trapping.Safe (Trapping.answer space query) (space.answer query) := by
  cases query with
  | own agent query =>
      rw [Trapping.answer, TeamSpace.answer, TeamSpace.agent]
      cases found : space.agents[agent]? with
      | none =>
          exact (Trapping.safe_lift (neverExceeds_missing _)).bind fun _ failed => by cases failed
      | some histories =>
          refine (Trapping.safe_lift (neverExceeds_of_eq_ok rfl)).bind fun histories' taken => ?_
          cases taken
          exact (guarded.seated histories (List.mem_of_getElem? found)).safe_answer query
  | joint query => exact guarded.team.guarded.safe_answer query
  | toIndividual index => exact guarded.safe_toIndividual index
  | toJoint stage individual => exact guarded.safe_toJoint stage individual

theorem safe : space.Safe := by
  refine ⟨fun histories member => ?_, guarded.team.safe, guarded.safe_answer, fun index => ?_⟩
  · obtain ⟨_, intact⟩ := guarded.intact histories member
    exact intact.safe
  · have held := guarded.team.safe.hold _ _ index fun individual _ symbol =>
      safe_extendIndividual guarded.seated space.alphabets individual symbol
    refine ⟨?_, held.2⟩
    rw [Trapping.hold, held.1]
    rfl

end Guarded

end TeamSpace

/-- Histories that were built, with any records made on demand since: whatever they are asked, no
operation leaves the range of words or divides by zero, no array is made beyond its capacity, and no
result is too large. -/
theorem safe_of_created {horizon : Nat} (planned : 1 ≤ horizon) :
    (∀ (ν : Type) (alphabet : Alphabet) (note : ν) (noteOf : ν → Nat → Symbol c → Except Fault ν)
        (start : HistorySpace c ν),
      HistorySpace.enumerate alphabet horizon note noteOf = .ok start ∨
          HistorySpace.closedForm alphabet horizon note = .ok start →
        ∀ requests : List (HistorySpace.Request c ν), (start.holdAll requests).Safe) ∧
      ∀ (alphabets : List Alphabet) (eagerIndividual eagerJoint : Bool) (start : TeamSpace c),
        TeamSpace.create alphabets horizon eagerIndividual eagerJoint = .ok start →
          ∀ requests : List Nat, (start.holdAll requests).Safe := by
  constructor
  · intro ν alphabet note noteOf start created requests
    exact ((HistorySpace.Intact.of_created planned created).holdAll requests).safe
  · intro alphabets eagerIndividual eagerJoint start created requests
    exact ((TeamSpace.Guarded.of_create planned created).holdAll requests).safe

/-- As many observations as leave room for the numbers of two stages, and a team one of whose agents
has nothing to observe. -/
theorem safe_of_created_at_the_bound :
    1 ≤ 2 ∧
      (∃ start : HistorySpace .observation Unit,
        HistorySpace.closedForm ⟨1, wordBound - 2⟩ 2 () = .ok start ∧
          start.total = wordBound - 1 ∧ (start.holdAll []).Safe) ∧
      ∃ start : TeamSpace .actionObservation,
        TeamSpace.create [⟨2, 2⟩, ⟨3, 0⟩] 2 false false = .ok start ∧
          ∀ requests : List Nat, (start.holdAll requests).Safe := by
  have planned : 1 ≤ 2 := by decide
  obtain ⟨start, described⟩ : ∃ start : HistorySpace .observation Unit,
      HistorySpace.closedForm ⟨1, wordBound - 2⟩ 2 () = .ok start := ⟨_, rfl⟩
  have total : (HistorySpace.closedForm (c := .observation) ⟨1, wordBound - 2⟩ 2 ()).map
      (·.total) = .ok (wordBound - 1) := by decide +kernel
  rw [described] at total
  obtain ⟨team, created⟩ : ∃ team : TeamSpace .actionObservation,
      TeamSpace.create [⟨2, 2⟩, ⟨3, 0⟩] 2 false false = .ok team := ⟨_, rfl⟩
  exact ⟨planned,
    ⟨start, described, Except.ok.inj total,
      (safe_of_created planned).1 Unit _ () (fun _ _ _ => .ok ()) start (.inr described) []⟩,
    team, created, (safe_of_created planned).2 _ false false team created⟩

end TeamPlanning
