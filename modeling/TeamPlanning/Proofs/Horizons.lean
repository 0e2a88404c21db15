import Mathlib.Data.List.TakeWhile
import Mathlib.Tactic.IntervalCases
import TeamPlanning.Horizon.Parse
import TeamPlanning.Proofs.Outcome

/-! # Reading horizons

A text is read as a horizon exactly if, between blanks and in small letters, it is one of the two
words for the infinite horizon or a decimal number in range that is not zero. What is written of a
horizon in range is read as that horizon. -/

set_option autoImplicit false

namespace TeamPlanning

theorem Text.trim_eq_self {text : List Char} (solid : ∀ c ∈ text, isBlank c = false) :
    trim text = text := by
  have kept : ∀ text : List Char, (∀ c ∈ text, isBlank c = false) →
      text.dropWhile isBlank = text := by
    intro text solid
    rw [List.dropWhile_eq_self_iff]
    intro inhabited
    simp [solid text[0] (List.getElem_mem inhabited)]
  rw [trim, kept text solid, kept text.reverse fun c member => solid c (List.mem_reverse.mp member),
    List.reverse_reverse]

namespace Horizon

/-! ## How horizons are written -/

/-- A number in decimal digits, at least one of them and any zeros in front, behind an optional
plus. -/
def Numeral (word : List Char) (number : Nat) : Prop :=
  ∃ sign digits, (sign = [] ∨ sign = ['+']) ∧ digits ≠ [] ∧ (∀ c ∈ digits, c.isDigit = true) ∧
    word = sign ++ digits ∧ Nat.ofDigitChars 10 digits 0 = number

/-- The words for the infinite horizon. -/
def Unbounded (word : List Char) : Prop := word = "inf".toList ∨ word = "infinite".toList

/-- The characters that horizons are written in. -/
def letters : List Char := "+0123456789efint".toList

/-- A way to put texts in small letters. In ASCII it has no choice. Other characters may become any
text, also a longer one and one that depends on where they stand, but something of that text is
never found in a horizon. -/
structure Lowers (lower : List Char → List Char) : Prop where
  ascii : ∀ text, (∀ c ∈ text, c.toNat < 128) → lower text = text.map Char.toLower
  foreign : ∀ text, ∀ c ∈ text, 128 ≤ c.toNat → ∃ d ∈ lower text, d ∉ letters

theorem mem_letters_of_isDigit {c : Char} (digit : c.isDigit = true) : c ∈ letters := by
  obtain ⟨low, high⟩ := Char.isDigit_iff_toNat.mp digit
  have known : c = Char.ofNat c.toNat := (Char.ofNat_toNat c).symm
  change 48 ≤ c.toNat at low
  change c.toNat ≤ 57 at high
  generalize c.toNat = code at known low high
  subst known
  interval_cases code <;> decide

theorem Numeral.subset {word : List Char} {number : Nat} (numeral : Numeral word number) :
    word ⊆ letters := by
  obtain ⟨sign, digits, signed, _, decimal, rfl, _⟩ := numeral
  refine List.append_subset_of_subset_of_subset ?_ fun c member =>
    mem_letters_of_isDigit (decimal c member)
  rcases signed with rfl | rfl
  · exact List.nil_subset _
  · decide

theorem Unbounded.subset {word : List Char} (unbounded : Unbounded word) : word ⊆ letters := by
  rcases unbounded with rfl | rfl
  · decide
  · decide

/-- No number is a word for the infinite horizon. -/
theorem Numeral.not_unbounded {word : List Char} {number : Nat} (numeral : Numeral word number) :
    ¬ Unbounded word := by
  obtain ⟨sign, digits, signed, inhabited, decimal, rfl, _⟩ := numeral
  obtain ⟨first, rest, rfl⟩ := List.exists_cons_of_ne_nil inhabited
  have digit := decimal first List.mem_cons_self
  rcases signed with rfl | rfl
  · rintro (same | same)
    all_goals
      obtain ⟨rfl, _⟩ := List.cons.inj same
      cases digit
  · rintro (same | same)
    all_goals
      have foreign := (List.cons.inj same).1
      cases foreign

/-- A plus in front is always the sign. -/
theorem ne_cons_plus {digits rest : List Char} (decimal : ∀ c ∈ digits, c.isDigit = true) :
    digits ≠ '+' :: rest := by
  rintro rfl
  cases decimal '+' List.mem_cons_self

/-- No word says two numbers. -/
theorem Numeral.unique {word : List Char} {number other : Nat} (numeral : Numeral word number)
    (numeral' : Numeral word other) : number = other := by
  obtain ⟨sign, digits, signed, _, decimal, rfl, rfl⟩ := numeral
  obtain ⟨sign', digits', signed', _, decimal', same, rfl⟩ := numeral'
  rcases signed with rfl | rfl <;> rcases signed' with rfl | rfl
  · rw [List.append_cancel_left same]
  · exact absurd same (ne_cons_plus decimal)
  · exact absurd same.symm (ne_cons_plus decimal')
  · rw [List.append_cancel_left same]

/-! ## Small letters -/

theorem toLower_of_foreign {c : Char} (foreign : 128 ≤ c.toNat) : c.toLower = c := by
  refine dif_neg fun upper => ?_
  have small : c.toNat ≤ 'Z'.toNat := UInt32.le_iff_toNat_le.mp upper.2
  have last : 'Z'.toNat = 90 := rfl
  omega

theorem not_mem_letters_of_foreign {c : Char} (foreign : 128 ≤ c.toNat) : c ∉ letters := by
  have each : letters.all (·.toNat < 128) = true := by decide
  intro member
  have plain := of_decide_eq_true (List.all_eq_true.mp each c member)
  omega

theorem lowers_map_toLower : Lowers (List.map Char.toLower) where
  ascii _ _ := rfl
  foreign _ c member foreign :=
    ⟨c, List.mem_map.mpr ⟨c, member, toLower_of_foreign foreign⟩,
      not_mem_letters_of_foreign foreign⟩

/-- Whatever small letters there are beyond ASCII, the same texts are written in the characters of
horizons. -/
theorem Lowers.iff_map_toLower {lower : List Char → List Char} (lowers : Lowers lower)
    (property : List Char → Prop) (spelled : ∀ word, property word → word ⊆ letters)
    (text : List Char) : property (lower text) ↔ property (text.map Char.toLower) := by
  by_cases plain : ∀ c ∈ text, c.toNat < 128
  · rw [lowers.ascii text plain]
  · simp only [not_forall, Nat.not_lt] at plain
    obtain ⟨c, member, foreign⟩ := plain
    obtain ⟨d, listed, strange⟩ := lowers.foreign text c member foreign
    obtain ⟨d', listed', strange'⟩ := lowers_map_toLower.foreign text c member foreign
    exact iff_of_false (fun held => strange (spelled _ held listed))
      fun held => strange' (spelled _ held listed')

/-! ## Numbers -/

theorem le_ofDigitChars (digits : List Char) (start : Nat) :
    start ≤ Nat.ofDigitChars 10 digits start := by
  rw [Nat.ofDigitChars_eq_ofDigitChars_zero]
  exact (Nat.le_mul_of_pos_left start (Nat.pow_pos (by decide))).trans (Nat.le_add_right _ _)

/-- Digits are read one by one. What is read so far never exceeds the whole, so that stopping at the
first excess refuses nothing in range. -/
theorem readDigits_eq_ok_iff {digits : List Char} {start number : Nat} (small : start < wordBound) :
    readDigits start digits = .ok number ↔
      (∀ c ∈ digits, c.isDigit = true) ∧ Nat.ofDigitChars 10 digits start = number ∧
        number < wordBound := by
  induction digits generalizing start with
  | nil =>
      rw [readDigits, Except.ok.injEq, Nat.ofDigitChars_nil]
      constructor
      · rintro rfl
        exact ⟨List.forall_mem_nil _, rfl, small⟩
      · exact fun given => given.2.1
  | cons c digits ih =>
      rw [readDigits, List.forall_mem_cons, Nat.ofDigitChars_cons]
      split
      · rename_i digit
        simp only [digit, true_and]
        split
        · rename_i fits
          exact ih fits
        · rename_i large
          constructor
          · intro read
            cases read
          · intro given
            obtain ⟨_, rfl, fits⟩ := given
            exact absurd ((le_ofDigitChars digits _).trans_lt fits) large
      · rename_i foreign
        constructor
        · intro read
          cases read
        · exact fun given => absurd given.1.1 foreign

theorem readNumber_eq_ok_iff {word : List Char} {number : Nat} :
    readNumber word = .ok number ↔ Numeral word number ∧ number < wordBound := by
  have start : 0 < wordBound := by decide
  unfold readNumber
  split
  · constructor
    · intro read
      cases read
    · intro given
      obtain ⟨⟨sign, digits, _, inhabited, _, same, _⟩, _⟩ := given
      exact absurd (List.append_eq_nil_iff.mp same.symm).2 inhabited
  · constructor
    · intro read
      cases read
    · intro given
      obtain ⟨⟨sign, digits, signed, inhabited, decimal, same, _⟩, _⟩ := given
      rcases signed with rfl | rfl
      · exact absurd same.symm (ne_cons_plus decimal)
      · exact absurd (List.cons.inj same).2.symm inhabited
  · rename_i digits longer
    rw [readDigits_eq_ok_iff start]
    constructor
    · intro given
      obtain ⟨decimal, value, small⟩ := given
      exact ⟨⟨['+'], digits, .inr rfl, fun empty => longer (by rw [empty]), decimal, rfl, value⟩,
        small⟩
    · intro given
      obtain ⟨⟨sign, digits', signed, _, decimal, same, value⟩, small⟩ := given
      rcases signed with rfl | rfl
      · exact absurd same.symm (ne_cons_plus decimal)
      · obtain rfl : digits = digits' := (List.cons.inj same).2
        exact ⟨decimal, value, small⟩
  · rename_i word inhabited _ unsigned
    rw [readDigits_eq_ok_iff start]
    constructor
    · intro given
      obtain ⟨decimal, value, small⟩ := given
      exact ⟨⟨[], _, .inl rfl, inhabited, decimal, rfl, value⟩, small⟩
    · intro given
      obtain ⟨⟨sign, digits, signed, _, decimal, same, value⟩, small⟩ := given
      rcases signed with rfl | rfl
      · rw [List.nil_append] at same
        subst same
        exact ⟨decimal, value, small⟩
      · exact absurd same (unsigned digits)

/-! ## Horizons -/

/-- A text as the reader sees it: without the blanks around it, and in small letters. -/
def bare (text : String) : List Char := (Text.trim text.toList).map Char.toLower

theorem parse_of_unbounded {text : String} (unbounded : Unbounded (bare text)) :
    parse text = .ok .infinite := by
  unfold parse
  exact if_pos unbounded

theorem parse_of_bounded {text : String} (bounded : ¬ Unbounded (bare text)) :
    parse text = readNumber (bare text) >>= fun number =>
      if number = 0 then .error .zero else .ok (.finite number) := by
  unfold parse
  refine (if_neg bounded).trans ?_
  refine congrArg _ (funext fun number => ?_)
  cases number with
  | zero => rfl
  | succ _ => rfl

theorem parse_eq_infinite_iff {text : String} :
    parse text = .ok .infinite ↔ Unbounded (bare text) := by
  constructor
  · intro read
    by_contra bounded
    rw [parse_of_bounded bounded] at read
    obtain ⟨number, _, chosen⟩ := bind_eq_ok_iff.mp read
    split at chosen
    · cases chosen
    · cases chosen
  · exact parse_of_unbounded

theorem parse_eq_finite_iff {text : String} {stages : Nat} :
    parse text = .ok (.finite stages) ↔
      Numeral (bare text) stages ∧ 1 ≤ stages ∧ stages < wordBound := by
  constructor
  · intro read
    have bounded : ¬ Unbounded (bare text) := by
      intro unbounded
      rw [parse_of_unbounded unbounded] at read
      cases read
    rw [parse_of_bounded bounded] at read
    obtain ⟨number, numbered, chosen⟩ := bind_eq_ok_iff.mp read
    obtain ⟨numeral, small⟩ := readNumber_eq_ok_iff.mp numbered
    split at chosen
    · cases chosen
    · cases chosen
      exact ⟨numeral, by omega, small⟩
  · intro given
    obtain ⟨numeral, positive, small⟩ := given
    rw [parse_of_bounded numeral.not_unbounded,
      bind_of_eq_ok (readNumber_eq_ok_iff.mpr ⟨numeral, small⟩)]
    exact if_neg (by omega)

/-! ### What is written is read -/

theorem numeral_text (stages : Nat) : Numeral (finite stages).text.toList stages := by
  have written : (finite stages).text.toList = Nat.toDigits 10 stages := Nat.toList_repr
  rw [written]
  exact ⟨[], _, .inl rfl, Nat.toDigits_ne_nil,
    fun _ => Nat.isDigit_of_mem_toDigits (by decide) (by decide), rfl,
    Nat.ofDigitChars_ten_toDigits⟩

theorem bare_eq_self {text : String}
    (solid : ∀ c ∈ text.toList, Text.isBlank c = false ∧ c.toLower = c) :
    bare text = text.toList := by
  rw [bare, Text.trim_eq_self fun c member => (solid c member).1]
  exact (List.map_congr_left fun c member => (solid c member).2).trans (List.map_id _)

/-- What is written in the characters of horizons has no blanks and no capitals. -/
theorem solid_of_mem_letters {c : Char} (letter : c ∈ letters) :
    Text.isBlank c = false ∧ c.toLower = c := by
  have each : letters.all (fun c => !Text.isBlank c && c.toLower == c) = true := by decide
  simpa using List.all_eq_true.mp each c letter

theorem bare_text (horizon : Horizon) : bare horizon.text = horizon.text.toList := by
  refine bare_eq_self fun c member => solid_of_mem_letters ?_
  cases horizon with
  | finite stages => exact (numeral_text stages).subset member
  | infinite => exact Unbounded.subset (.inl rfl) member

theorem parse_text_finite_iff {stages : Nat} :
    parse (finite stages).text = .ok (.finite stages) ↔ 1 ≤ stages ∧ stages < wordBound := by
  rw [parse_eq_finite_iff, bare_text]
  exact and_iff_right (numeral_text stages)

theorem parse_text_iff {horizon : Horizon} :
    parse horizon.text = .ok horizon ↔
      horizon = .infinite ∨
        ∃ stages, horizon = .finite stages ∧ 1 ≤ stages ∧ stages < wordBound := by
  cases horizon with
  | finite stages => simp [parse_text_finite_iff]
  | infinite => exact iff_of_true (parse_of_unbounded (.inl (bare_text .infinite))) (.inl rfl)

/-! ## The language of horizons -/

/-- Exactly the words for the infinite horizon and the numbers in range are read, between blanks and
in any mixture of cases, whichever small letters there are beyond ASCII; zero is never read, and what
is written of a horizon in range is read as that horizon. -/
theorem parse_accepts_exactly {lower : List Char → List Char} (lowers : Lowers lower) :
    (∀ text : String,
      let word := lower (Text.trim text.toList)
      (parse text = .ok .infinite ↔ Unbounded word) ∧
      (∀ stages, parse text = .ok (.finite stages) ↔
        Numeral word stages ∧ 1 ≤ stages ∧ stages < wordBound) ∧
      ((∃ fault, parse text = .error fault) ↔
        ¬ Unbounded word ∧ ∀ stages, Numeral word stages → stages = 0 ∨ wordBound ≤ stages)) ∧
    (∀ text, parse text ≠ .ok (.finite 0)) ∧
    (∀ horizon : Horizon, parse horizon.text = .ok horizon ↔
      horizon = .infinite ∨
        ∃ stages, horizon = .finite stages ∧ 1 ≤ stages ∧ stages < wordBound) := by
  refine ⟨fun text => ?_, fun text read => ?_, fun horizon => parse_text_iff⟩
  · have infinite : parse text = .ok .infinite ↔ Unbounded (lower (Text.trim text.toList)) := by
      rw [parse_eq_infinite_iff, bare, lowers.iff_map_toLower Unbounded fun _ => Unbounded.subset]
    have finite : ∀ stages, parse text = .ok (.finite stages) ↔
        Numeral (lower (Text.trim text.toList)) stages ∧ 1 ≤ stages ∧ stages < wordBound := by
      intro stages
      rw [parse_eq_finite_iff, bare,
        lowers.iff_map_toLower (Numeral · stages) fun _ => Numeral.subset]
    refine ⟨infinite, finite, ?_⟩
    constructor
    · rintro ⟨fault, refused⟩
      refine ⟨fun unbounded => ?_, fun stages numeral => ?_⟩
      · rw [infinite.mpr unbounded] at refused
        cases refused
      · by_contra inside
        rw [(finite stages).mpr ⟨numeral, by omega, by omega⟩] at refused
        cases refused
    · rintro ⟨bounded, outside⟩
      rcases answer : parse text with fault | horizon
      · exact ⟨fault, rfl⟩
      · exfalso
        cases horizon with
        | infinite => exact bounded (infinite.mp answer)
        | finite stages =>
            obtain ⟨numeral, positive, small⟩ := (finite stages).mp answer
            rcases outside stages numeral with rfl | large
            · exact absurd positive (by decide)
            · omega
  · exact absurd (parse_eq_finite_iff.mp read).2.1 (by decide)

/-- Zeros in front do not make a number too long, and the first number beyond a word is refused. -/
theorem parse_accepts_exactly_at_bounds :
    parse "\t+0018446744073709551615 " = .ok (.finite (wordBound - 1)) ∧
    parse "inFINite\n" = .ok .infinite ∧
    (∃ fault, parse "18446744073709551616" = .error fault) ∧
    parse (finite (wordBound - 1)).text = .ok (.finite (wordBound - 1)) := by
  obtain ⟨accepts, _, trips⟩ := parse_accepts_exactly lowers_map_toLower
  refine ⟨?_, ?_, ?_, (trips _).mpr (.inr ⟨_, rfl, by decide, by decide⟩)⟩
  · refine ((accepts _).2.1 _).mpr ⟨?_, by decide, by decide⟩
    exact ⟨['+'], "0018446744073709551615".toList, .inr rfl, by decide,
      List.all_eq_true.mp (by decide), by decide, by decide⟩
  · exact (accepts _).1.mpr (.inr (by decide))
  · have large : Numeral "18446744073709551616".toList wordBound :=
      ⟨[], _, .inl rfl, by decide, List.all_eq_true.mp (by decide), rfl, by decide⟩
    exact (accepts _).2.2.mpr ⟨large.not_unbounded, fun _ numeral => .inr (numeral.unique large).ge⟩

end Horizon

end TeamPlanning
