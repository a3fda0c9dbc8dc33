/-
# Where the thresholds lie

Both thresholds are so many tenths of the sides, and both are bent in two
places: a d6 is cut in the middle instead, and the product stops at the
largest 32-bit number.  Neither bend brings them out of order.

| | |
| :-- | :-- |
| rounding up | a number is at least so many tenths if ten of it make up the product (`tenths_le_iff`), from which all bounds follow |
| the d6 | its threshold lies between those of a die with five sides and of one with seven (`monotone_cut`) |
| the largest product | from there on the threshold is always the same, and the more sides a die has the more faces lie past it |

So there is always a face that a biased die is content with, and, with two
sides or more, one that it is not.
-/
import Mathlib.Algebra.Order.Field.Basic
import Mathlib.Algebra.Order.Floor.Semiring
import Mathlib.Data.Rat.Floor
import Mathlib.Tactic.IntervalCases
import DiceRoller.Proofs.Rolling.Verdict

namespace DiceRoller

/-! ## Tenths -/

section Tenths

variable {part part' sides sides' n : Nat}

/-- Rounded up, so many tenths are the least number of which ten make up
the product. -/
theorem tenths_le_iff :
    tenths part sides ≤ n ↔ min (part * sides) (UInt32.size - 1) ≤ 10 * n := by
  rw [tenths]
  omega

theorem tenths_mono (hpart : part ≤ part') (hsides : sides ≤ sides') :
    tenths part sides ≤ tenths part' sides' := by
  refine tenths_le_iff.mpr ?_
  calc min (part * sides) (UInt32.size - 1)
      ≤ min (part' * sides') (UInt32.size - 1) :=
        min_le_min_right _ (Nat.mul_le_mul hpart hsides)
    _ ≤ 10 * tenths part' sides' := tenths_le_iff.mp (Nat.le_refl _)

theorem tenths_le_sides (hpart : part ≤ 10) : tenths part sides ≤ sides :=
  tenths_le_iff.mpr ((min_le_left _ _).trans (Nat.mul_le_mul_right sides hpart))

theorem tenths_eq_ceil (h : part * sides < UInt32.size) :
    tenths part sides = ⌈(part * sides : ℚ) / 10⌉₊ := by
  refine eq_of_forall_ge_iff fun n => ?_
  rw [tenths_le_iff, min_eq_left (Nat.le_sub_one_of_lt h), Nat.ceil_le, div_le_iff₀' (by norm_num)]
  exact_mod_cast Iff.rfl

theorem tenths_eq_largest (h : UInt32.size ≤ part * sides) : tenths part sides = 429496730 := by
  rw [tenths, min_eq_right ((Nat.sub_le UInt32.size 1).trans h)]
  rfl

theorem monotone_cut {middle : Nat} (hbelow : tenths part 5 ≤ middle)
    (habove : middle ≤ tenths part 7) :
    Monotone fun sides => if sides = 6 then middle else tenths part sides := by
  intro a b hab
  dsimp only
  split
  · next ha =>
      split
      · exact Nat.le_refl middle
      · next hb => exact habove.trans (tenths_mono (Nat.le_refl part) (by omega))
  · next ha =>
      split
      · next hb => exact (tenths_mono (Nat.le_refl part) (by omega)).trans hbelow
      · exact tenths_mono (Nat.le_refl part) hab

end Tenths

/-! ## The two thresholds -/

theorem luckyThreshold_monotone : Monotone luckyThreshold :=
  monotone_cut (by decide) (by decide)

theorem unluckyThreshold_monotone : Monotone unluckyThreshold :=
  monotone_cut (by decide) (by decide)

theorem luckyThreshold_of_ne {sides : Nat} (h : sides ≠ 6) :
    luckyThreshold sides = tenths 7 sides :=
  if_neg h

theorem unluckyThreshold_of_ne {sides : Nat} (h : sides ≠ 6) :
    unluckyThreshold sides = tenths 3 sides :=
  if_neg h

theorem unluckyThreshold_pos {sides : Nat} (h : 1 ≤ sides) : 1 ≤ unluckyThreshold sides :=
  unluckyThreshold_monotone h

theorem luckyThreshold_le_sides (sides : Nat) : luckyThreshold sides ≤ sides := by
  by_cases h : sides = 6
  · subst h
    decide
  · rw [luckyThreshold_of_ne h]
    exact tenths_le_sides (by decide)

theorem unluckyThreshold_le_luckyThreshold (sides : Nat) :
    unluckyThreshold sides ≤ luckyThreshold sides := by
  by_cases h : sides = 6
  · subst h
    decide
  · rw [luckyThreshold_of_ne h, unluckyThreshold_of_ne h]
    exact tenths_mono (by decide) (Nat.le_refl sides)

theorem one_lt_luckyThreshold {sides : Nat} (h : 2 ≤ sides) : 1 < luckyThreshold sides :=
  luckyThreshold_monotone h

theorem unluckyThreshold_lt_sides {sides : Nat} (h : 2 ≤ sides) :
    unluckyThreshold sides < sides := by
  by_cases h6 : sides = 6
  · subst h6
    decide
  · rw [unluckyThreshold_of_ne h6]
    have hmany : 3 * sides ≤ 10 * (sides - 1) := by omega
    exact Nat.lt_of_le_sub_one (Nat.lt_of_lt_of_le Nat.two_pos h)
      (tenths_le_iff.mpr ((min_le_left _ _).trans hmany))

theorem luckyThreshold_of_le_three {sides : Nat} (h : sides ≤ 3) :
    luckyThreshold sides = sides := by
  interval_cases sides <;> rfl

theorem unluckyThreshold_of_le_three {sides : Nat} (hpos : 1 ≤ sides) (h : sides ≤ 3) :
    unluckyThreshold sides = 1 := by
  interval_cases sides <;> rfl

/-! ## Faces on either side -/

namespace Bias

theorem rerolls_highest (bias : Bias) {sides : Nat} (h : 2 ≤ sides) :
    bias.rerolls sides sides = bias.isUnlucky := by
  cases bias with
  | fair => rfl
  | lucky => exact decide_eq_false (Nat.not_lt.mpr (luckyThreshold_le_sides sides))
  | unlucky => exact decide_eq_true (unluckyThreshold_lt_sides h)

theorem rerolls_one (bias : Bias) {sides : Nat} (h : 2 ≤ sides) :
    bias.rerolls sides 1 = bias.isLucky := by
  cases bias with
  | fair => rfl
  | lucky => exact decide_eq_true (one_lt_luckyThreshold h)
  | unlucky => exact decide_eq_false (Nat.not_lt.mpr (unluckyThreshold_pos (Nat.le_of_lt h)))

theorem exists_kept (bias : Bias) {sides : Nat} (h : 1 ≤ sides) :
    ∃ face, IsFace sides face ∧ bias.rerolls sides face = false := by
  cases bias with
  | fair => exact ⟨1, ⟨Nat.le_refl 1, h⟩, rfl⟩
  | lucky =>
      exact ⟨sides, ⟨h, Nat.le_refl sides⟩,
        decide_eq_false (Nat.not_lt.mpr (luckyThreshold_le_sides sides))⟩
  | unlucky =>
      exact ⟨1, ⟨Nat.le_refl 1, h⟩, decide_eq_false (Nat.not_lt.mpr (unluckyThreshold_pos h))⟩

end Bias

/-- The thresholds lie among the faces, in order, and leave each bias a face
that it keeps; with two sides or more they leave it one that it rolls again.
More sides never lower them.  But for the d6 they are seven and three tenths
of the sides, rounded up, until the product is too large for 32 bits. -/
theorem thresholds_lie_among_faces :
    (∀ sides, 1 ≤ sides →
      1 ≤ unluckyThreshold sides ∧ unluckyThreshold sides ≤ luckyThreshold sides ∧
        luckyThreshold sides ≤ sides ∧
        ∀ bias : Bias, ∃ face, IsFace sides face ∧ bias.rerolls sides face = false) ∧
    (∀ sides, 2 ≤ sides →
      Bias.lucky.rerolls sides 1 = true ∧ Bias.unlucky.rerolls sides sides = true) ∧
    Monotone luckyThreshold ∧ Monotone unluckyThreshold ∧
    ∀ sides, sides ≠ 6 →
      (7 * sides < 2 ^ 32 → luckyThreshold sides = ⌈(7 * sides : ℚ) / 10⌉₊) ∧
      (2 ^ 32 ≤ 7 * sides → luckyThreshold sides = 429496730) ∧
      (3 * sides < 2 ^ 32 → unluckyThreshold sides = ⌈(3 * sides : ℚ) / 10⌉₊) ∧
      (2 ^ 32 ≤ 3 * sides → unluckyThreshold sides = 429496730) := by
  refine ⟨?_, ?_, luckyThreshold_monotone, unluckyThreshold_monotone, ?_⟩
  · intro sides h
    exact ⟨unluckyThreshold_pos h, unluckyThreshold_le_luckyThreshold sides,
      luckyThreshold_le_sides sides, fun bias => bias.exists_kept h⟩
  · intro sides h
    exact ⟨Bias.lucky.rerolls_one h, Bias.unlucky.rerolls_highest h⟩
  · intro sides h
    rw [luckyThreshold_of_ne h, unluckyThreshold_of_ne h]
    exact ⟨tenths_eq_ceil, tenths_eq_largest, tenths_eq_ceil, tenths_eq_largest⟩

/-- The last die whose lucky threshold is exact and the next one; the
largest die of 32 bits. -/
theorem thresholds_lie_among_faces_largest_dice :
    luckyThreshold 613566756 = ⌈(7 * (613566756 : Nat) : ℚ) / 10⌉₊ ∧
    luckyThreshold 613566757 = 429496730 ∧
    unluckyThreshold 613566757 = ⌈(3 * (613566757 : Nat) : ℚ) / 10⌉₊ ∧
    unluckyThreshold 613566757 ≤ luckyThreshold 613566757 ∧
    (∃ face, IsFace 4294967295 face ∧ Bias.lucky.rerolls 4294967295 face = false) ∧
    Bias.unlucky.rerolls 4294967295 4294967295 = true := by
  obtain ⟨horder, hrerolls, -, -, hexact⟩ := thresholds_lie_among_faces
  obtain ⟨-, hle, -, -⟩ := horder 613566757 (by decide)
  obtain ⟨-, -, -, hkept⟩ := horder 4294967295 (by decide)
  refine ⟨?_, ?_, ?_, hle, hkept .lucky, (hrerolls 4294967295 (by decide)).2⟩
  · exact (hexact 613566756 (by decide)).1 (by decide)
  · exact (hexact 613566757 (by decide)).2.1 (by decide)
  · exact (hexact 613566757 (by decide)).2.2.1 (by decide)

end DiceRoller
