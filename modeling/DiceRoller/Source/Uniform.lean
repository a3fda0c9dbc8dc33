/-
# Fair numbers from bytes

A byte is a fair number from 0 to 255.  Its remainder modulo `max` is fair
only if the bytes fall evenly on the remainders, and they do so below the
largest multiple of `max` that a byte can reach, the `cutoff`.  So bytes
from the cutoff on are passed over, and the first byte below it gives the
number.

How bytes are found is left to the supply; all that is asked of it is the
first byte below a bound.  A supply of bytes in a list is given here.
-/
import DiceRoller.Source.Basic

namespace DiceRoller

/-- The largest multiple of `max` that is at most 256. -/
def cutoff (max : Nat) : Nat :=
  256 / max * max

theorem cutoff_pos {max : Nat} (h : 1 ≤ max ∧ max ≤ 256) : 0 < cutoff max :=
  Nat.mul_pos (Nat.div_pos h.2 h.1) h.1

theorem cutoff_le (max : Nat) : cutoff max ≤ 256 :=
  Nat.div_mul_le_self 256 max

/-- Bytes to be had one after the other: finds the first one below a
positive bound, and has then used up all bytes up to it. -/
abbrev ByteSupply (σ : Type) : Type :=
  (bound : Nat) → 0 < bound → Rolling σ UInt8

/-- A fair number from 1 to `max`.  For 1 there is nothing to choose, and
no byte is used. -/
def uniformInt {σ : Type} (firstBelow : ByteSupply σ) (max : Nat) :
    Rolling σ Nat :=
  if h : 1 ≤ max ∧ max ≤ 256 then
    if max = 1 then pure 1
    else do
      let byte ← firstBelow (cutoff max) (cutoff_pos h)
      pure (byte.toNat % max + 1)
  else throw (.outOfRange max)

/-! ## Bytes in a list -/

/-- The first byte of a list below the bound; the state is what is left of
the list.  A list that runs out is a supply that has failed. -/
def firstBelow (bound : Nat) : Rolling (List UInt8) UInt8
  | [] => .error (.entropy "unexpected situation") []
  | byte :: rest => if byte.toNat < bound then .ok byte rest else firstBelow bound rest

/-- Fair numbers from a list of bytes. -/
def Source.bytes : Source (List UInt8) where
  draw := uniformInt fun bound _ => firstBelow bound
  secure := false
  ready? := none

end DiceRoller
