/-
# Dice and rolled dice

A group of dice is a count and a number of sides, the `2d6` of `2d6+3`.
Nothing is asked of the two numbers here: which groups may be written is
a matter of limits, and which may be rolled a matter of the roll.

Totals are kept below `totalBound`.  A group's largest total is its count
times its sides, so the bound can be checked before any die is rolled
(`Dice.maxTotal?`), and again on the values that came up (`total?`).
-/

namespace DiceRoller

/-- Every total is below this number. -/
def totalBound : Nat := UInt32.size

/-- The number itself if it is small enough to be a total. -/
def bounded? (n : Nat) : Option Nat :=
  if n < totalBound then some n else none

theorem bounded?_eq_some {n m : Nat} :
    bounded? n = some m ↔ n < totalBound ∧ n = m := by
  simp [bounded?]

theorem bounded?_eq_none {n : Nat} : bounded? n = none ↔ totalBound ≤ n := by
  simp [bounded?]

def total (values : List Nat) : Nat :=
  values.foldr (· + ·) 0

@[simp] theorem total_cons (value : Nat) (values : List Nat) :
    total (value :: values) = value + total values :=
  rfl

theorem total_append (values more : List Nat) :
    total (values ++ more) = total values + total more :=
  List.sum_append_nat

theorem total_replicate (n value : Nat) : total (List.replicate n value) = n * value :=
  List.sum_replicate_nat

/-- The sum of the values, if it is small enough. -/
def total? (values : List Nat) : Option Nat :=
  bounded? (total values)

theorem total?_of_lt {values : List Nat} (h : total values < totalBound) :
    total? values = some (total values) :=
  bounded?_eq_some.mpr ⟨h, rfl⟩

theorem total?_of_le {values : List Nat} (h : totalBound ≤ total values) : total? values = none :=
  bounded?_eq_none.mpr h

/-- The values in brackets, parted by commas: `[6, 2, 5]`. -/
def bracketed (values : List Nat) : String :=
  "[" ++ ", ".intercalate (values.map toString) ++ "]"

/-! ## Groups of dice -/

/-- One or more dice with the same number of sides. -/
structure Dice where
  count : Nat
  sides : Nat
  deriving DecidableEq, Repr

namespace Dice

instance : Inhabited Dice := ⟨⟨1, 20⟩⟩

/-- The total when every die shows its highest face. -/
def highest (dice : Dice) : Nat :=
  dice.count * dice.sides

def maxTotal? (dice : Dice) : Option Nat :=
  bounded? dice.highest

/-- A group is written as its count, a `d` and its sides. -/
instance : ToString Dice where
  toString dice := toString dice.count ++ "d" ++ toString dice.sides

end Dice

/-! ## Rolled dice -/

/-- A group of dice with the values that came up, in the order rolled. -/
structure Rolled where
  dice : Dice
  values : List Nat
  deriving DecidableEq, Repr

namespace Rolled

def total? (rolled : Rolled) : Option Nat :=
  DiceRoller.total? rolled.values

/-- Rolled dice are written as the group, a colon and the values:
`4d6:[6, 2, 5, 3]`. -/
instance : ToString Rolled where
  toString rolled := toString rolled.dice ++ ":" ++ bracketed rolled.values

end Rolled

end DiceRoller
