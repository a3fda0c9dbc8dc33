/-
# Lucky and unlucky dice

A biased die is rolled again while it is on the wrong side of a threshold,
but not for ever: after `rerollLimit` further rolls the last value stands.
Every value is a genuine draw; nothing is clamped or mapped.

The thresholds lie at seven and at three tenths of the sides, rounded up,
except on a d6, which is cut in the middle.  The products stop at the
largest 32-bit number, which only dice too large to be rolled can notice.
-/
import DiceRoller.Source.Basic

namespace DiceRoller

/-- How often a biased die is rolled again at most. -/
def rerollLimit : Nat := 100

/-! ## Thresholds -/

/-- So many tenths of the sides, rounded up. -/
def tenths (part sides : Nat) : Nat :=
  (min (part * sides) (UInt32.size - 1) + 9) / 10

/-- The lowest value that a lucky die is content with. -/
def luckyThreshold (sides : Nat) : Nat :=
  if sides = 6 then 4 else tenths 7 sides

/-- The highest value that an unlucky die is content with. -/
def unluckyThreshold (sides : Nat) : Nat :=
  if sides = 6 then 3 else tenths 3 sides

/-! ## Conditions -/

/-- A test on the value of a die. -/
inductive Condition
  | above (threshold : Nat)
  | below (threshold : Nat)
  deriving DecidableEq, Repr

namespace Condition

def holds : Condition → Nat → Bool
  | above threshold, value => threshold < value
  | below threshold, value => value < threshold

def threshold : Condition → Nat
  | above threshold => threshold
  | below threshold => threshold

def symbol : Condition → String
  | above _ => ">"
  | below _ => "<"

/-- A test is written as its sign and its threshold: `<14`. -/
instance : ToString Condition where
  toString condition := condition.symbol ++ toString condition.threshold

end Condition

/-! ## Biases -/

/-- What is done to the values of a die.  Low ones of lucky dice and high ones
of unlucky dice are rolled again. -/
inductive Bias
  | fair
  | lucky
  | unlucky
  deriving DecidableEq, Repr

namespace Bias

instance : Inhabited Bias := ⟨fair⟩

/-- The bias that two flags ask for; if both are set, luck prevails. -/
def ofFlags (isLucky isUnlucky : Bool) : Bias :=
  if isLucky then lucky else if isUnlucky then unlucky else fair

def isLucky (bias : Bias) : Bool :=
  bias = lucky

def isUnlucky (bias : Bias) : Bool :=
  bias = unlucky

/-- The test that a value has to pass to be rolled again, if any value
is. -/
def rerollCondition? (bias : Bias) (sides : Nat) : Option Condition :=
  match bias with
  | fair => none
  | lucky => some (.below (luckyThreshold sides))
  | unlucky => some (.above (unluckyThreshold sides))

end Bias

/-! ## Rolling again -/

namespace Source

variable {σ : Type} (source : Source σ)

/-- Rolls again while the condition holds, at most `limit` times. -/
def reroll (condition : Condition) (sides : Nat) : (limit value : Nat) → Rolling σ Nat
  | 0, value => pure value
  | limit + 1, value =>
    if condition.holds value then do
      let value ← source.draw sides
      reroll condition sides limit value
    else pure value

/-- The value that a die settles for after its first one. -/
def settle (bias : Bias) (first sides : Nat) : Rolling σ Nat :=
  match bias.rerollCondition? sides with
  | none => pure first
  | some condition => source.reroll condition sides rerollLimit first

end Source

end DiceRoller
