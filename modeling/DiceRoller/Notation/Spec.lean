/-
# What is to be rolled

A `Spec` is notation that has been read and found within the limits.  One
group of dice makes it simple, and then the dice can also be rolled in
pairs; several groups make it complex, and then they are only added up.
The text it came from is kept, since outcomes name it.
-/
import DiceRoller.Dice

namespace DiceRoller

/-- The dice of a roll. -/
inductive Shape
  | simple (dice : Dice)
  | complex (groups : List Dice)
  deriving DecidableEq, Repr

namespace Shape

/-- A single group is simple; anything else is complex. -/
def ofGroups : List Dice → Shape
  | [dice] => simple dice
  | groups => complex groups

def groups : Shape → List Dice
  | simple dice => [dice]
  | complex groups => groups

def isComplex : Shape → Bool
  | simple _ => false
  | complex _ => true

@[simp] theorem groups_ofGroups (groups : List Dice) :
    (ofGroups groups).groups = groups := by
  unfold ofGroups
  split <;> rfl

theorem isComplex_ofGroups (groups : List Dice) :
    (ofGroups groups).isComplex = false ↔ groups.length = 1 := by
  unfold ofGroups
  split
  · simp [isComplex]
  · next h =>
      simp only [isComplex, Bool.true_eq_false, false_iff]
      intro hlen
      obtain ⟨dice, rfl⟩ := List.length_eq_one_iff.mp hlen
      exact h dice rfl

end Shape

/-- A roll that has been asked for, and the notation it was written in,
without blanks. -/
structure Spec where
  shape : Shape
  modifier : Int
  format : String
  deriving DecidableEq, Repr

namespace Spec

def groups (spec : Spec) : List Dice :=
  spec.shape.groups

/-- The largest total that the dice could show. -/
def highest (spec : Spec) : Nat :=
  total (spec.groups.map Dice.highest)

/-- A spec is written the way it was read. -/
instance : ToString Spec where
  toString spec := spec.format

end Spec

end DiceRoller
