/-
# How evenly faces come up

A die is rolled many times and its faces are tallied.  The tally is exact;
how far it is from even is a matter of `Float`s, worked out from it.
-/
import DiceRoller.Roll

namespace DiceRoller

/-! ## Tallies -/

/-- One more value in a tally.  Values that are no face of the die are not
counted. -/
def addToTally (counts : List Nat) (value : Nat) : List Nat :=
  if value = 0 then counts else counts.modify (value - 1) (· + 1)

/-- How often each face from 1 to `sides` is among the values. -/
def tally (sides : Nat) (values : List Nat) : List Nat :=
  values.foldl addToTally (List.replicate sides 0)

@[simp] theorem length_addToTally (counts : List Nat) (value : Nat) :
    (addToTally counts value).length = counts.length := by
  unfold addToTally
  split <;> simp

@[simp] theorem length_tally (sides : Nat) (values : List Nat) :
    (tally sides values).length = sides := by
  have h : ∀ counts : List Nat,
      (values.foldl addToTally counts).length = counts.length := by
    induction values with
    | nil => intro counts; rfl
    | cons value rest ih =>
        intro counts
        exact (ih _).trans (length_addToTally counts value)
  simp [tally, h]

/-! ## Samples -/

/-- The tally of a number of rolls of one die, with a count for each face from
1 on. -/
structure Distribution where
  sides : Nat
  rolls : Nat
  counts : List Nat
  deriving DecidableEq, Repr

/-- Rolls a fair die again and again and tallies the values. -/
def Source.sample {σ : Type} (source : Source σ) (sides rolls : Nat) :
    Rolling σ Distribution := do
  let values ← Rolling.times rolls (source.rollDie sides .fair)
  pure ⟨sides, rolls, tally sides values⟩

namespace Distribution

variable (sample : Distribution)

def expected : Float :=
  sample.rolls.toFloat / sample.sides.toFloat

def deviations : List Float :=
  sample.counts.map fun count => (count.toFloat - sample.expected).abs

/-- The largest deviation as a fraction of the expected count.  A fraction
that is no number is passed over. -/
def maxRelativeDeviation : Float :=
  sample.deviations.foldl (fun most deviation =>
    let fraction := deviation / sample.expected
    if most < fraction then fraction else most) 0

end Distribution

end DiceRoller
