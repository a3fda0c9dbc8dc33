/-
# Limits on written groups

Notation that reads well may still be refused: a table may want at most
ten dice at a time, or no die above a hundred sides.  `Limits` holds those
bounds, and `ParseError` all the reasons for which notation is refused,
each with the words for the person who typed it.

Numbers are compared exactly, however long they are.  Only where a number
is shown to the user does it stop at `reportBound`.
-/
import DiceRoller.Dice
import DiceRoller.Notation.Fault

namespace DiceRoller

/-- The largest number that is shown to the user. -/
def reportBound : Nat := UInt64.size - 1

/-- The number as it is shown: larger ones stop at the bound. -/
def reported (n : Nat) : Nat :=
  min n reportBound

def Dice.reported (dice : Dice) : Dice :=
  ⟨DiceRoller.reported dice.count, DiceRoller.reported dice.sides⟩

/-- A reason for which notation is refused.  Malformed text is shown without
its blanks. -/
inductive ParseError
  | empty
  | malformed (text : String) (fault : Fault)
  | countOutOfBounds (count max : Nat)
  | sidesOutOfBounds (sides min max : Nat)
  deriving DecidableEq, Repr

def ParseError.message : ParseError → String
  | empty => "Enter a dice notation (e.g. 2d6, 1d20+5)"
  | malformed text _ =>
    "Invalid dice notation \"" ++ text ++
      "\". Use [count]d[sides] (e.g. 2d6, 1d20+5)"
  | countOutOfBounds count max =>
    "Dice count must be between 1 and " ++ toString max ++ ", got " ++
      toString count
  | sidesOutOfBounds sides min max =>
    "Dice must have between " ++ toString min ++ " and " ++ toString max ++
      " sides, got " ++ toString sides

/-- Bounds on every group of dice. -/
structure Limits where
  maxDice : Nat
  minSides : Nat
  maxSides : Nat
  deriving DecidableEq, Repr

namespace Limits

/-- As good as no bounds: at least one die of at least two sides. -/
def unbounded : Limits := ⟨UInt32.size - 1, 2, UInt32.size - 1⟩

/-- At most ten dice, of at most a hundred sides. -/
def conservative : Limits := ⟨10, 2, 100⟩

instance : Inhabited Limits := ⟨unbounded⟩

def Allows (limits : Limits) (dice : Dice) : Prop :=
  (1 ≤ dice.count ∧ dice.count ≤ limits.maxDice) ∧
    limits.minSides ≤ dice.sides ∧ dice.sides ≤ limits.maxSides

instance (limits : Limits) (dice : Dice) : Decidable (limits.Allows dice) := by
  unfold Allows; infer_instance

/-- The group itself if it lies within the limits, else what is wrong with
it; of two faults the count is named. -/
def check (limits : Limits) (dice : Dice) : Except ParseError Dice :=
  if ¬ (1 ≤ dice.count ∧ dice.count ≤ limits.maxDice) then
    .error (.countOutOfBounds (reported dice.count) limits.maxDice)
  else if ¬ (limits.minSides ≤ dice.sides ∧ dice.sides ≤ limits.maxSides) then
    .error (.sidesOutOfBounds (reported dice.sides) limits.minSides limits.maxSides)
  else .ok dice

theorem check_eq_ok_iff {limits : Limits} {dice dice' : Dice} :
    limits.check dice = .ok dice' ↔ limits.Allows dice ∧ dice' = dice := by
  grind [check, Allows]

end Limits

end DiceRoller
