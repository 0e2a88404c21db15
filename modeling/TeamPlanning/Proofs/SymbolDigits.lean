import Mathlib.Data.Prod.Lex
import TeamPlanning.Proofs.History.InRange

/-! # Symbols by number and by letter

The symbols within an alphabet are known by the digits below its base, which follow one another in
the order of actions and then of observations, and by the letters of trees. Neither takes one symbol
for another. A symbol outside the alphabet has no digit, even where its parts would make a small
one. -/

set_option autoImplicit false

namespace TeamPlanning.Symbol

open TeamPlanning.Trapping (Gives)

/-- Every part of the symbol is one of those that the alphabet counts. -/
inductive Fits (alphabet : Alphabet) : {c : HistoryKind} → Symbol c → Prop where
  | observation {o : Nat} (known : o < alphabet.observations) : Fits alphabet (.observation o)
  | action {a : Nat} (known : a < alphabet.actions) : Fits alphabet (.action a)
  | actionObservation {a o : Nat} (knownAction : a < alphabet.actions)
      (knownObservation : o < alphabet.observations) : Fits alphabet (.actionObservation a o)

/-- The action and the observation of a symbol, compared by the action first. A part that the kind
lacks counts as zero. -/
def sortKey : {c : HistoryKind} → Symbol c → ℕ ×ₗ ℕ
  | _, .observation o => toLex (0, o)
  | _, .action a => toLex (a, 0)
  | _, .actionObservation a o => toLex (a, o)

variable {c : HistoryKind} {alphabet : Alphabet} {base digit digit' : Nat} {symbol other : Symbol c}

theorem fits_iff : symbol.Fits alphabet ↔ symbol.within alphabet = true := by
  constructor
  · intro fits
    cases fits with
    | observation known => exact decide_eq_true known
    | action known => exact decide_eq_true known
    | actionObservation knownAction knownObservation =>
        exact Bool.and_eq_true_iff.mpr
          ⟨decide_eq_true knownAction, decide_eq_true knownObservation⟩
  · intro within
    cases symbol with
    | observation o => exact .observation (of_decide_eq_true within)
    | action a => exact .action (of_decide_eq_true within)
    | actionObservation a o =>
        obtain ⟨knownAction, knownObservation⟩ := Bool.and_eq_true_iff.mp within
        exact .actionObservation (of_decide_eq_true knownAction)
          (of_decide_eq_true knownObservation)

theorem validDigit_eq_ok_iff :
    symbol.validDigit alphabet = .ok digit ↔
      symbol.Fits alphabet ∧ symbol.digit alphabet = digit := by
  rw [(validDigit_answers symbol alphabet).eq_ok_iff, Option.ite_none_right_eq_some, fits_iff,
    Option.some.injEq]

theorem validDigit_of_not_fits (foreign : ¬ symbol.Fits alphabet) :
    symbol.validDigit alphabet = .error (.missing (.symbol symbol alphabet)) :=
  if_neg fun within => foreign (fits_iff.mpr within)

/-- Pairs are compared like their digits: one more action outweighs every observation. -/
theorem pair_digit_lt_iff {observations a o b p : Nat} (known : o < observations)
    (known' : p < observations) :
    a * observations + o < b * observations + p ↔ toLex (a, o) < toLex (b, p) := by
  rw [Prod.Lex.toLex_lt_toLex]
  rcases Nat.lt_trichotomy a b with less | rfl | greater
  · have room := Nat.mul_le_mul_right observations (Nat.succ_le_of_lt less)
    rw [Nat.succ_mul] at room
    simp only [less, true_or, iff_true]
    omega
  · simp
  · have room := Nat.mul_le_mul_right observations (Nat.succ_le_of_lt greater)
    rw [Nat.succ_mul] at room
    have later : ¬ a < b := Nat.not_lt_of_gt greater
    have different : a ≠ b := Nat.ne_of_gt greater
    simp only [later, different, false_and, or_self, iff_false]
    omega

theorem digit_lt_digit_iff (based : c.base alphabet = .ok base) (fits : symbol.Fits alphabet)
    (fits' : other.Fits alphabet) :
    symbol.digit alphabet < other.digit alphabet ↔ symbol.sortKey < other.sortKey := by
  cases fits with
  | @observation o known =>
      cases fits' with
      | @observation p known' => simp [digit, sortKey, Prod.Lex.toLex_lt_toLex]
  | @action a known =>
      cases fits' with
      | @action b known' => simp [digit, sortKey, Prod.Lex.toLex_lt_toLex]
  | @actionObservation a o known known' =>
      cases fits' with
      | @actionObservation b p knownOther knownOther' =>
          obtain ⟨small, _⟩ := Bounded.mul_eq_ok_iff.mp based
          rw [pair_digit_eq small known known', pair_digit_eq small knownOther knownOther']
          exact pair_digit_lt_iff known' knownOther'

/-- The digits below the base are those of the symbols that fit, one digit for each symbol. -/
structure Numbered (c : HistoryKind) (alphabet : Alphabet) (base : Nat) : Prop where
  /-- Just the symbols that fit have a digit. -/
  validDigit_isOk : ∀ symbol : Symbol c,
    (∃ digit, symbol.validDigit alphabet = .ok digit) ↔ symbol.Fits alphabet
  /-- The other ones are refused. -/
  validDigit_refuses : ∀ symbol : Symbol c, ¬ symbol.Fits alphabet →
    symbol.validDigit alphabet = .error (.missing (.symbol symbol alphabet))
  /-- The digits are the numbers below the base. -/
  validDigit_covers : ∀ digit,
    (∃ symbol : Symbol c, symbol.validDigit alphabet = .ok digit) ↔ digit < base
  /-- On the way to a digit nothing leaves the range of words. -/
  validDigit_gives : ∀ symbol : Symbol c,
    Gives (Trapping.validDigit symbol alphabet) (symbol.validDigit alphabet)
  /-- A symbol is read back from its digit. -/
  ofDigit_validDigit : ∀ (symbol : Symbol c) digit, symbol.validDigit alphabet = .ok digit →
    ofDigit c digit alphabet = symbol
  /-- A digit below the base is read without division by zero, as a symbol that fits and has it. -/
  validDigit_ofDigit : ∀ digit < base,
    Gives (Trapping.ofDigit c digit alphabet) (.ok (ofDigit c digit alphabet)) ∧
      (ofDigit c digit alphabet).Fits alphabet ∧
        (ofDigit c digit alphabet).validDigit alphabet = .ok digit
  /-- Digits are in the order of actions, and then of observations. -/
  ordered : ∀ (symbol other : Symbol c) digit digit', symbol.validDigit alphabet = .ok digit →
    other.validDigit alphabet = .ok digit' → (digit < digit' ↔ symbol.sortKey < other.sortKey)
  /-- Symbols share neither digits nor letters. -/
  apart : ∀ symbol other : Symbol c, symbol.Fits alphabet → other.Fits alphabet → symbol ≠ other →
    symbol.digit alphabet ≠ other.digit alphabet ∧ symbol.letter ≠ other.letter

/-- Over every alphabet with a base, the symbols of a kind correspond one to one to the digits below
that base. -/
theorem digits_correspond (based : c.base alphabet = .ok base) : Numbered c alphabet base := by
  have read : ∀ (symbol : Symbol c) digit, symbol.validDigit alphabet = .ok digit →
      ofDigit c digit alphabet = symbol := by
    intro symbol digit found
    obtain ⟨fits, rfl⟩ := validDigit_eq_ok_iff.mp found
    exact ofDigit_digit based (fits_iff.mp fits)
  have written : ∀ digit < base, (ofDigit c digit alphabet).Fits alphabet ∧
      (ofDigit c digit alphabet).validDigit alphabet = .ok digit := by
    intro digit below
    have fits := fits_iff.mpr (within_ofDigit (c := c) based below)
    exact ⟨fits, validDigit_eq_ok_iff.mpr ⟨fits, digit_ofDigit based below⟩⟩
  constructor
  case validDigit_isOk => simp only [validDigit_eq_ok_iff, exists_and_left, exists_eq', and_true,
    implies_true]
  case validDigit_refuses => exact fun symbol => validDigit_of_not_fits
  case validDigit_covers =>
    intro digit
    constructor
    · intro given
      obtain ⟨symbol, found⟩ := given
      obtain ⟨fits, rfl⟩ := validDigit_eq_ok_iff.mp found
      exact digit_lt_base based (fits_iff.mp fits)
    · exact fun below => ⟨_, (written digit below).2⟩
  case validDigit_gives => exact Trapping.gives_validDigit based
  case ofDigit_validDigit => exact read
  case validDigit_ofDigit =>
    exact fun digit below => ⟨Trapping.gives_ofDigit based below, written digit below⟩
  case ordered =>
    intro symbol other digit digit' found found'
    obtain ⟨fits, rfl⟩ := validDigit_eq_ok_iff.mp found
    obtain ⟨fits', rfl⟩ := validDigit_eq_ok_iff.mp found'
    exact digit_lt_digit_iff based fits fits'
  case apart =>
    intro symbol other fits fits' different
    refine ⟨fun same => different ?_, fun same => different (letter_injective same)⟩
    have back := ofDigit_digit based (fits_iff.mp fits)
    rw [same, ofDigit_digit based (fits_iff.mp fits')] at back
    exact back.symm

/-- The base is `2 ^ 32` short of the bound of words. The last pair has the last digit; the pair of
the first action with one observation too many is refused, though its parts would make a digit below
the base. -/
theorem digits_correspond_near_bound :
    HistoryKind.actionObservation.base ⟨2 ^ 32, 2 ^ 32 - 1⟩ = .ok (2 ^ 64 - 2 ^ 32) ∧
      Numbered .actionObservation ⟨2 ^ 32, 2 ^ 32 - 1⟩ (2 ^ 64 - 2 ^ 32) ∧
        (Symbol.actionObservation (2 ^ 32 - 1) (2 ^ 32 - 2)).validDigit ⟨2 ^ 32, 2 ^ 32 - 1⟩ =
            .ok (2 ^ 64 - 2 ^ 32 - 1) ∧
          (Symbol.actionObservation 0 (2 ^ 32 - 1)).digit ⟨2 ^ 32, 2 ^ 32 - 1⟩ <
              2 ^ 64 - 2 ^ 32 ∧
            (Symbol.actionObservation 0 (2 ^ 32 - 1)).validDigit ⟨2 ^ 32, 2 ^ 32 - 1⟩ =
              .error (.missing (.symbol (.actionObservation 0 (2 ^ 32 - 1))
                ⟨2 ^ 32, 2 ^ 32 - 1⟩)) := by
  have based : HistoryKind.actionObservation.base ⟨2 ^ 32, 2 ^ 32 - 1⟩ =
      .ok (2 ^ 64 - 2 ^ 32) := by rfl
  exact ⟨based, digits_correspond based, by rfl, by decide, by rfl⟩

end TeamPlanning.Symbol
