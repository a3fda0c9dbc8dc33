/-
# Which of the reasons for a refusal is given

Notation can be wrong in several ways at once.  The reason that is given
follows a fixed order, and every stage of it is decided by the text and the
limits alone.

| | |
| :-- | :-- |
| nothing but blanks | `empty` |
| else, what is left is no phrase with a modifier in range | `malformed`, whatever the limits |
| else, some group is outside of the limits | what is wrong with the first such group, its count before its sides |

Numbers are compared exactly, with all their digits.  One that is too long
to be shown is reported as `reportBound`, and limits of 32 bits are far
below that: a number that is reported is out of bounds even as reported.
-/
import Mathlib.Algebra.Group.Nat.Defs
import DiceRoller.Proofs.Notation.Diagnosis

namespace DiceRoller

/-! ## What a group is charged with -/

namespace Limits

variable {limits : Limits} {dice : Dice}

theorem check_ne_empty : limits.check dice ≠ .error .empty := by
  unfold check
  split
  · exact fun h => nomatch h
  · split <;> exact fun h => nomatch h

theorem check_eq_countOutOfBounds_iff {count max : Nat} :
    limits.check dice = .error (.countOutOfBounds count max) ↔
      (dice.count = 0 ∨ limits.maxDice < dice.count) ∧
        count = reported dice.count ∧ max = limits.maxDice := by
  grind [check]

theorem check_eq_sidesOutOfBounds_iff {sides min max : Nat} :
    limits.check dice = .error (.sidesOutOfBounds sides min max) ↔
      (1 ≤ dice.count ∧ dice.count ≤ limits.maxDice) ∧
        (dice.sides < limits.minSides ∨ limits.maxSides < dice.sides) ∧
        sides = reported dice.sides ∧ min = limits.minSides ∧ max = limits.maxSides := by
  grind [check]

end Limits

theorem lt_reported {n max : Nat} (hmax : max < 2 ^ 32) (h : max < n) : max < reported n := by
  have hbound : max < reportBound := Nat.lt_trans hmax (by decide)
  exact Nat.lt_min.mpr ⟨h, hbound⟩

/-! ## The stages -/

theorem dropBlanks_eq_nil_iff {text : String} :
    dropBlanks text = [] ↔ ∀ c ∈ text.toList, isBlank c = true := by
  simp [dropBlanks]

theorem dropBlanks_ne_nil_iff {text : String} :
    dropBlanks text ≠ [] ↔ ∃ c ∈ text.toList, isBlank c = false := by
  simp [dropBlanks]

theorem parse_eq_empty_iff {limits : Limits} {text : String} :
    parse limits text = .error .empty ↔ dropBlanks text = [] := by
  constructor
  · intro h
    by_contra hblank
    cases hread : Reading.reader.read (plainText text) with
    | error fault =>
        rw [parse_of_fault hblank hread] at h
        exact nomatch h
    | ok reading =>
        rw [parse_of_reading hread] at h
        cases hcheck : reading.groups.mapM limits.check with
        | ok groups => rw [hcheck] at h; exact nomatch h
        | error e =>
            rw [hcheck] at h
            cases h
            obtain ⟨dice, -, hdice⟩ := mapM_check_eq_error_iff.mp hcheck
            exact Limits.check_ne_empty hdice
  · exact parse_of_blank

/-- Text is read unless it is no phrase with a modifier in range. -/
theorem exists_fault_iff {text : List Char} :
    (∃ fault, Reading.reader.read text = .error fault) ↔
      ¬ ∃ phrase : Phrase, phrase.text = text ∧ phrase.InRange := by
  cases hread : Reading.reader.read text with
  | error fault =>
      simp only [Except.error.injEq, exists_eq', true_iff]
      rintro ⟨phrase, ht, hrange⟩
      have hok := read_eq_ok_iff_phrase.mpr ⟨phrase, ht, rfl, hrange⟩
      rw [hread] at hok
      exact nomatch hok
  | ok reading =>
      obtain ⟨phrase, ht, -, hrange⟩ := read_eq_ok_iff_phrase.mp hread
      simp only [reduceCtorEq, exists_false, false_iff, not_not]
      exact ⟨phrase, ht, hrange⟩

theorem parse_eq_check_error_iff {limits : Limits} {text : String} {error : ParseError}
    (hempty : error ≠ .empty) (hmalformed : ∀ shown fault, error ≠ .malformed shown fault) :
    parse limits text = .error error ↔
      ∃ (phrase : Phrase) (dice : Dice), phrase.text = plainText text ∧ phrase.InRange ∧
        limits.FirstOutside phrase.dice dice ∧ limits.check dice = .error error := by
  constructor
  · intro h
    by_cases hblank : dropBlanks text = []
    · rw [parse_of_blank hblank] at h
      cases h
      exact absurd rfl hempty
    cases hread : Reading.reader.read (plainText text) with
    | error fault =>
        rw [parse_of_fault hblank hread] at h
        cases h
        exact absurd rfl (hmalformed _ _)
    | ok reading =>
        obtain ⟨phrase, ht, rfl, hrange⟩ := read_eq_ok_iff_phrase.mp hread
        rw [parse_of_reading hread] at h
        cases hcheck : phrase.reading.groups.mapM limits.check with
        | ok groups => rw [hcheck] at h; exact nomatch h
        | error e =>
            rw [hcheck] at h
            cases h
            obtain ⟨dice, houtside, hdice⟩ := mapM_check_eq_error_iff.mp hcheck
            exact ⟨phrase, dice, ht, hrange, houtside, hdice⟩
  · rintro ⟨phrase, dice, ht, hrange, houtside, hdice⟩
    have hread : Reading.reader.read (plainText text) = .ok phrase.reading :=
      read_eq_ok_iff_phrase.mpr ⟨phrase, ht, rfl, hrange⟩
    have hcheck : phrase.reading.groups.mapM limits.check = .error error :=
      mapM_check_eq_error_iff.mpr ⟨dice, houtside, hdice⟩
    rw [parse_of_reading hread, hcheck]
    rfl

/-! ## The order of the reasons -/

/-- Which reason is given: that there is nothing to read; else that it is
malformed, for which the limits do not matter; else what is wrong with the
first group outside of the limits, with its number exact up to the largest
one that is shown, and never one that would be within them. -/
theorem refusals_in_order (limits : Limits) (text : String) :
    (parse limits text = .error .empty ↔ ∀ c ∈ text.toList, isBlank c = true) ∧
    ((∃ shown fault, parse limits text = .error (.malformed shown fault)) ↔
      (∃ c ∈ text.toList, isBlank c = false) ∧
        ¬ ∃ phrase : Phrase, phrase.text = plainText text ∧ phrase.InRange) ∧
    (∀ count max, parse limits text = .error (.countOutOfBounds count max) ↔
      ∃ (phrase : Phrase) (dice : Dice), phrase.text = plainText text ∧ phrase.InRange ∧
        limits.FirstOutside phrase.dice dice ∧
        (dice.count = 0 ∨ limits.maxDice < dice.count) ∧
        count = min dice.count (2 ^ 64 - 1) ∧ max = limits.maxDice) ∧
    (∀ sides least most, parse limits text = .error (.sidesOutOfBounds sides least most) ↔
      ∃ (phrase : Phrase) (dice : Dice), phrase.text = plainText text ∧ phrase.InRange ∧
        limits.FirstOutside phrase.dice dice ∧
        (1 ≤ dice.count ∧ dice.count ≤ limits.maxDice) ∧
        (dice.sides < limits.minSides ∨ limits.maxSides < dice.sides) ∧
        sides = min dice.sides (2 ^ 64 - 1) ∧
        least = limits.minSides ∧ most = limits.maxSides) ∧
    (∀ count max, parse limits text = .error (.countOutOfBounds count max) → max < 2 ^ 32 →
      count = 0 ∨ max < count) ∧
    ∀ sides least most, parse limits text = .error (.sidesOutOfBounds sides least most) →
      most < 2 ^ 32 → sides < least ∨ most < sides := by
  have hcounts (count max : Nat) :
      parse limits text = .error (.countOutOfBounds count max) ↔ _ :=
    parse_eq_check_error_iff nofun nofun
  have hsides (sides least most : Nat) :
      parse limits text = .error (.sidesOutOfBounds sides least most) ↔ _ :=
    parse_eq_check_error_iff nofun nofun
  simp only [Limits.check_eq_countOutOfBounds_iff] at hcounts
  simp only [Limits.check_eq_sidesOutOfBounds_iff] at hsides
  refine ⟨?_, ?_, hcounts, hsides, ?_, ?_⟩
  · rw [parse_eq_empty_iff, dropBlanks_eq_nil_iff]
  · rw [← exists_fault_iff, ← dropBlanks_ne_nil_iff]
    simp only [parse_eq_malformed_iff]
    constructor
    · rintro ⟨shown, fault, hblank, hread, -⟩
      exact ⟨hblank, fault, hread⟩
    · rintro ⟨hblank, fault, hread⟩
      exact ⟨normalize text, fault, hblank, hread, rfl⟩
  · intro count max h hmax
    obtain ⟨_, dice, _, _, _, hcount, rfl, rfl⟩ := (hcounts count max).mp h
    rcases hcount with hzero | hmany
    · left; rw [hzero]; rfl
    · exact .inr (lt_reported hmax hmany)
  · intro sides least most h hmost
    obtain ⟨_, dice, _, _, _, _, hside, rfl, rfl, rfl⟩ := (hsides sides least most).mp h
    rcases hside with hfew | hmany
    · exact .inl (Nat.lt_of_le_of_lt (Nat.min_le_left _ _) hfew)
    · exact .inr (lt_reported hmost hmany)

/-- Too many dice, but first of all digits after a plus sign that are out of
range as a modifier; with a `d` behind them they are the count of a group. -/
theorem refusals_in_order_long_digits :
    parse .conservative "11d6 +99999999999999999999" =
      .error (.malformed "11d6+99999999999999999999" ⟨25, none, [.character 'd']⟩) ∧
    (¬ ∃ phrase : Phrase, phrase.text = plainText "11d6 +99999999999999999999" ∧
      phrase.InRange) ∧
    parse .conservative "1d6 +99999999999999999999D0" =
      .error (.countOutOfBounds (2 ^ 64 - 1) 10) ∧
    (2 ^ 64 - 1 = 0 ∨ 10 < 2 ^ 64 - 1) ∧
    parse .conservative "1d101" = .error (.sidesOutOfBounds 101 2 100) ∧
    (101 < 2 ∨ 100 < 101) := by
  have hmodifier : parse .conservative "11d6 +99999999999999999999" =
      .error (.malformed "11d6+99999999999999999999" ⟨25, none, [.character 'd']⟩) := by
    decide
  have hcount : parse .conservative "1d6 +99999999999999999999D0" =
      .error (.countOutOfBounds (2 ^ 64 - 1) 10) := by
    decide
  have hsides : parse .conservative "1d101" = .error (.sidesOutOfBounds 101 2 100) := by
    decide
  obtain ⟨-, hmalformed, -⟩ :=
    refusals_in_order .conservative "11d6 +99999999999999999999"
  obtain ⟨-, -, -, -, hlarge, -⟩ :=
    refusals_in_order .conservative "1d6 +99999999999999999999D0"
  obtain ⟨-, -, -, -, -, hwide⟩ := refusals_in_order .conservative "1d101"
  exact ⟨hmodifier, (hmalformed.mp ⟨_, _, hmodifier⟩).2, hcount, hlarge _ _ hcount (by decide),
    hsides, hwide _ _ _ hsides (by decide)⟩

end DiceRoller
