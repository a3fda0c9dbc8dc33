/-
# A seeded generator

The generator wyrand walks through the 64-bit words with a fixed odd
stride and scrambles each word it reaches: the two halves of a 128-bit
product, combined bit by bit.  Its low byte serves as a random byte.  The
seed is the word where the walk starts, so equal seeds give equal rolls.

Passing over bytes that are too large comes to an end.  An odd stride
leads through every word, also through zero, and the byte of zero is zero,
which is below every bound.  `stepsToZero` is the number of steps before
that, and it falls with every byte passed over (`stepsToZero_next_lt`).
-/
import DiceRoller.Source.Uniform

namespace DiceRoller

namespace Wyrand

/-- The stride of the walk. -/
def stride : UInt64 := 0x2d358dccaa6c78a5

/-- The word that undoes a multiplication by the stride. -/
def strideInverse : UInt64 := 0x32e25c49d2beaf2d

def next (word : UInt64) : UInt64 :=
  word + stride

def scramble (word : UInt64) : UInt64 :=
  let product := word.toNat * (word ^^^ 0x8bb84b93962eacc9).toNat
  UInt64.ofNat product ^^^ UInt64.ofNat (product / UInt64.size)

def byte (word : UInt64) : UInt8 :=
  (scramble word).toUInt8

theorem byte_zero : byte 0 = 0 := by
  decide

/-! ## The walk reaches zero -/

/-- How many steps are left before the step that reaches zero.  At zero
itself the walk has gone round once more. -/
def stepsToZero (word : UInt64) : UInt64 :=
  (0 - word) * strideInverse - 1

theorem stepsToZero_next (word : UInt64) :
    stepsToZero (next word) = stepsToZero word - 1 := by
  have h : stride * strideInverse = 1 := by decide
  unfold stepsToZero next
  grind

theorem next_eq_zero {word : UInt64} (h : stepsToZero word = 0) :
    next word = 0 := by
  have hs : stride * strideInverse = 1 := by decide
  unfold stepsToZero at h
  unfold next
  grind

/-- Every step that does not reach zero brings it nearer. -/
theorem stepsToZero_next_lt {word : UInt64} (h : next word ≠ 0) :
    (stepsToZero (next word)).toNat < (stepsToZero word).toNat := by
  have hne : stepsToZero word ≠ 0 := fun hz => h (next_eq_zero hz)
  have hpos : 0 < (stepsToZero word).toNat :=
    Nat.pos_of_ne_zero fun hz => hne (UInt64.toNat_inj.mp hz)
  have hle : (1 : UInt64) ≤ stepsToZero word := UInt64.le_iff_toNat_le.mpr hpos
  rw [stepsToZero_next, UInt64.toNat_sub_of_le _ _ hle]
  exact Nat.sub_lt hpos (by decide)

/-! ## The first byte below a bound -/

/-- The first byte below the bound, and the word that it came from. -/
def firstBelow (bound : Nat) (pos : 0 < bound) (word : UInt64) : UInt8 × UInt64 :=
  if (byte (next word)).toNat < bound then (byte (next word), next word)
  else firstBelow bound pos (next word)
termination_by (stepsToZero word).toNat
decreasing_by
  apply stepsToZero_next_lt
  intro hzero
  simp_all [byte_zero]

end Wyrand

/-- Fair numbers from the generator; the state is the word reached. -/
def Source.seeded : Source UInt64 where
  draw := uniformInt fun bound pos word =>
    let (byte, word) := Wyrand.firstBelow bound pos word
    .ok byte word
  secure := false
  ready? := none

end DiceRoller
