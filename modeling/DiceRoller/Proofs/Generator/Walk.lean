/-
# The seeded generator always answers

Bytes from the cutoff on are passed over, and nothing in a single step
says that this ends: any one byte may be too large.  It ends because of
where the walk leads.

| | |
| :-- | :-- |
| the walk reaches zero | an odd stride leads through every word, so zero is `stepsToZero + 1` steps away (`iterate_next_stepsToZero`), at most `2 ^ 64` |
| zero is accepted | its byte is zero, which is below every bound (`byte_zero`) |

So the first byte below a bound comes after at most as many steps
(`FirstAfter.le`), and the number of steps says all about a draw: which
words were passed over, the word that gave the value, and the value.
-/
import Mathlib.Algebra.Group.Nat.Defs
import Mathlib.Logic.Function.Iterate
import DiceRoller.Source.Wyrand

namespace DiceRoller

namespace Wyrand

/-! ## The walk reaches zero -/

theorem toNat_stepsToZero_next {word : UInt64} {k : Nat}
    (h : (stepsToZero word).toNat = k + 1) : (stepsToZero (next word)).toNat = k := by
  have hle : (1 : UInt64) ≤ stepsToZero word := by
    rw [UInt64.le_iff_toNat_le, h]
    exact Nat.le_add_left 1 k
  rw [stepsToZero_next, UInt64.toNat_sub_of_le _ _ hle, h]
  rfl

/-- The walk reaches zero, from every word. -/
theorem iterate_next_stepsToZero (word : UInt64) :
    next^[(stepsToZero word).toNat + 1] word = 0 := by
  generalize hk : (stepsToZero word).toNat = k
  induction k generalizing word with
  | zero => exact next_eq_zero (UInt64.toNat_inj.mp hk)
  | succ k ih =>
      rw [Function.iterate_succ_apply]
      exact ih (next word) (toNat_stepsToZero_next hk)

/-! ## The first byte below a bound -/

/-- The word after so many steps is the first one whose byte is below the
bound. -/
structure FirstAfter (bound : Nat) (word : UInt64) (steps : Nat) : Prop where
  pos : 0 < steps
  accepted : (byte (next^[steps] word)).toNat < bound
  passedOver : ∀ i, 0 < i → i < steps → bound ≤ (byte (next^[i] word)).toNat

namespace FirstAfter

variable {bound steps : Nat} {word : UInt64}

theorem one (h : (byte (next word)).toNat < bound) : FirstAfter bound word 1 where
  pos := Nat.one_pos
  accepted := by
    rw [Function.iterate_one]
    exact h
  passedOver := by
    intro i hpos hi
    omega

theorem succ (hpassed : bound ≤ (byte (next word)).toNat)
    (h : FirstAfter bound (next word) steps) : FirstAfter bound word (steps + 1) where
  pos := Nat.succ_pos steps
  accepted := by
    rw [Function.iterate_succ_apply]
    exact h.accepted
  passedOver := by
    intro i hpos hi
    obtain ⟨j, rfl⟩ := Nat.exists_eq_add_of_lt hpos
    rw [Nat.zero_add] at hi ⊢
    rw [Function.iterate_succ_apply]
    cases j with
    | zero => exact hpassed
    | succ j => exact h.passedOver (j + 1) (Nat.succ_pos j) (Nat.lt_of_succ_lt_succ hi)

theorem le_of_accepted (h : FirstAfter bound word steps) {n : Nat} (hn : 0 < n)
    (haccepted : (byte (next^[n] word)).toNat < bound) : steps ≤ n := by
  rcases Nat.lt_or_ge n steps with hlt | hle
  · exact absurd haccepted (Nat.not_lt.mpr (h.passedOver n hn hlt))
  · exact hle

theorem le (h : FirstAfter bound word steps) (hbound : 0 < bound) : steps ≤ 2 ^ 64 := by
  have hzero : (byte (next^[(stepsToZero word).toNat + 1] word)).toNat < bound := by
    rw [iterate_next_stepsToZero, byte_zero]
    exact hbound
  have hsteps := h.le_of_accepted (Nat.succ_pos _) hzero
  have hwords : (stepsToZero word).toNat < 2 ^ 64 := (stepsToZero word).toNat_lt
  omega

end FirstAfter

/-- The search ends at the first word whose byte is below the bound. -/
theorem exists_firstAfter (bound : Nat) (pos : 0 < bound) (word : UInt64) :
    ∃ steps, FirstAfter bound word steps ∧
      firstBelow bound pos word = (byte (next^[steps] word), next^[steps] word) := by
  fun_induction firstBelow bound pos word with
  | case1 word haccepted =>
      refine ⟨1, .one haccepted, ?_⟩
      rw [Function.iterate_one]
  | case2 word hpassed ih =>
      obtain ⟨steps, hfirst, hbelow⟩ := ih
      refine ⟨steps + 1, hfirst.succ (Nat.not_lt.mp hpassed), ?_⟩
      rw [Function.iterate_succ_apply]
      exact hbelow

end Wyrand

/-! ## Draws -/

theorem uniformInt_of_search {σ : Type} (search : (bound : Nat) → 0 < bound → σ → UInt8 × σ)
    {max : Nat} (hrange : 1 ≤ max ∧ max ≤ 256) (hne : max ≠ 1) (s : σ) :
    (uniformInt (fun bound pos s =>
        let (byte, s) := search bound pos s
        .ok byte s) max).run s =
      .ok ((search (cutoff max) (cutoff_pos hrange) s).1.toNat % max + 1)
        (search (cutoff max) (cutoff_pos hrange) s).2 := by
  unfold uniformInt
  rw [dif_pos hrange, if_neg hne]
  rfl

/-- A seeded source answers every request within its range, whatever was
drawn before: it takes the first byte below the cutoff, which is at most
`2 ^ 64` bytes away, and none at all for a number that can only be 1. -/
theorem seeded_draw_ends (word : UInt64) (max : Nat) (hpos : 1 ≤ max) (hmax : max ≤ 256) :
    ∃ blocks value, (Source.seeded.draw max).run word = .ok value (Wyrand.next^[blocks] word) ∧
      1 ≤ value ∧ value ≤ max ∧ blocks ≤ 2 ^ 64 ∧
      (max = 1 → blocks = 0) ∧
      (max ≠ 1 → Wyrand.FirstAfter (cutoff max) word blocks ∧
        value = (Wyrand.byte (Wyrand.next^[blocks] word)).toNat % max + 1) := by
  rcases Nat.eq_or_lt_of_le hpos with rfl | hlt
  · -- nothing to choose, and no byte is used
    exact ⟨0, 1, rfl, Nat.le_refl 1, Nat.le_refl 1, Nat.zero_le _, fun _ => rfl,
      fun h => absurd rfl h⟩
  · have hrange : 1 ≤ max ∧ max ≤ 256 := ⟨hpos, hmax⟩
    have hne : max ≠ 1 := Nat.ne_of_gt hlt
    obtain ⟨blocks, hfirst, hbelow⟩ :=
      Wyrand.exists_firstAfter (cutoff max) (cutoff_pos hrange) word
    have hdraw := uniformInt_of_search Wyrand.firstBelow hrange hne word
    rw [hbelow] at hdraw
    exact ⟨blocks, _, hdraw, Nat.le_add_left 1 _, Nat.mod_lt _ hpos,
      hfirst.le (cutoff_pos hrange), fun h => absurd h hne, fun _ => ⟨hfirst, rfl⟩⟩

/-- Two hundred sides: of the 256 bytes the highest 56 are passed over. -/
theorem seeded_draw_ends_d200 :
    (1 ≤ 200 ∧ 200 ≤ 256) ∧
    ∃ blocks value, (Source.seeded.draw 200).run 7 = .ok value (Wyrand.next^[blocks] 7) ∧
      1 ≤ value ∧ value ≤ 200 ∧ blocks ≤ 2 ^ 64 ∧
      (200 = 1 → blocks = 0) ∧
      (200 ≠ 1 → Wyrand.FirstAfter (cutoff 200) 7 blocks ∧
        value = (Wyrand.byte (Wyrand.next^[blocks] 7)).toNat % 200 + 1) :=
  ⟨by decide, seeded_draw_ends 7 200 (by decide) (by decide)⟩

end DiceRoller
