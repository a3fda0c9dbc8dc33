/-
# Rolling dice

One die, several dice with the same number of sides, a group of dice.
What can be seen beforehand is refused before anything is drawn: no dice,
dice with an impossible number of sides, totals that could become too
large, and more values than there is room for.  Afterwards only the source
itself can fail.

Room is reserved for all values of several dice at once, and what memory
answers is nothing a roll could know.  So a roll is given its `Memory`, and
one that is given none has room for everything.
-/
import DiceRoller.Bias
import DiceRoller.Dice

namespace DiceRoller

/-- A die with this many sides can be rolled. -/
def Rollable (sides : Nat) : Prop :=
  2 ≤ sides ∧ sides ≤ 100

instance (sides : Nat) : Decidable (Rollable sides) := by
  unfold Rollable; infer_instance

/-! ## Room for values -/

/-- What memory answers to the reservations of a roll.  To the one that has
`place` others before it: why there is no room for `count` more values, or
nothing if there is. -/
def Memory : Type :=
  (place count : Nat) → Option String

namespace Memory

variable {σ : Type}

def unlimited : Memory :=
  fun _ _ => none

/-- What is answered after the first `n` reservations. -/
def after (memory : Memory) (n : Nat) : Memory :=
  fun place => memory (n + place)

/-- Reserves room for `count` values.  The state is left alone. -/
def reserve (memory : Memory) (count : Nat) : Rolling σ Unit :=
  match memory 0 count with
  | none => pure ()
  | some reason => throw (.capacity reason)

@[simp] theorem after_unlimited (n : Nat) : unlimited.after n = unlimited :=
  rfl

@[simp] theorem reserve_unlimited (count : Nat) :
    (unlimited.reserve count : Rolling σ Unit) = pure () :=
  rfl

end Memory

namespace Source

variable {σ : Type} (source : Source σ)

/-- Rolls one die, again if the bias asks for it. -/
def rollDie (sides : Nat) (bias : Bias) : Rolling σ Nat :=
  if Rollable sides then do
    let first ← source.draw sides
    source.settle bias first sides
  else throw (.invalidDie sides)

def rollPair (sides : Nat) (bias : Bias) : Rolling σ (Nat × Nat) := do
  let first ← source.rollDie sides bias
  let second ← source.rollDie sides bias
  pure (first, second)

/-- Rolls `count` dice, with the values in the order rolled. -/
def rollMany (count sides : Nat) (bias : Bias) (memory : Memory := .unlimited) :
    Rolling σ (List Nat) :=
  if count = 0 then throw .invalidCount
  else if ¬ Rollable sides then throw (.invalidDie sides)
  else if totalBound ≤ count * sides then throw .overflow
  else do
    memory.reserve count
    Rolling.times count (source.rollDie sides bias)

theorem rollMany_unlimited (count sides : Nat) (bias : Bias) :
    source.rollMany count sides bias =
      if count = 0 then throw .invalidCount
      else if ¬ Rollable sides then throw (.invalidDie sides)
      else if totalBound ≤ count * sides then throw .overflow
      else Rolling.times count (source.rollDie sides bias) := by
  simp only [rollMany, Memory.reserve_unlimited, pure_bind]

def rollDice (dice : Dice) (bias : Bias) (memory : Memory := .unlimited) : Rolling σ Rolled := do
  let values ← source.rollMany dice.count dice.sides bias memory
  pure ⟨dice, values⟩

/-- Rolls a group that is added to others: when its values are there, room
is reserved for them once more, beside those of the others. -/
def rollGroup (dice : Dice) (bias : Bias) (memory : Memory) : Rolling σ Rolled := do
  let rolled ← source.rollDice dice bias memory
  (memory.after 1).reserve dice.count
  pure rolled

@[simp] theorem rollGroup_unlimited (dice : Dice) (bias : Bias) :
    source.rollGroup dice bias .unlimited = source.rollDice dice bias := by
  simp only [rollGroup, Memory.after_unlimited, Memory.reserve_unlimited, pure_bind, bind_pure]

end Source

end DiceRoller
