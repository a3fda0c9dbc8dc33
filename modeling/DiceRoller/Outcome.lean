/-
# What came up

A `Hand` is what lies on the table after a roll: values, groups of values,
or pairs of which one die counts.  From it follow the raw values, the
values that count and the account given of them.

An `Outcome` is the record of a whole roll, with everything a player may
ask about afterwards.  `chatSummary` tells it in two lines, `toString` in
one.
-/
import DiceRoller.Dice
import DiceRoller.RollType

namespace DiceRoller

/-! ## Raw values -/

/-- The values that came up, singly or in pairs, in the order rolled. -/
inductive Rolls
  | flat (values : List Nat)
  | paired (pairs : List (Nat × Nat))
  deriving DecidableEq, Repr

namespace Rolls

def length : Rolls → Nat
  | flat values => values.length
  | paired pairs => pairs.length

def isEmpty (rolls : Rolls) : Bool :=
  rolls.length = 0

def isPaired : Rolls → Bool
  | flat _ => false
  | paired _ => true

end Rolls

/-! ## The hand -/

/-- The dice as they lie on the table. -/
inductive Hand
  | single (values : List Nat)
  | inGroups (rolled : List Rolled)
  | inPairs (keep : Keep) (pairs : List (Nat × Nat))
  deriving DecidableEq, Repr

namespace Hand

def rolls : Hand → Rolls
  | single values => .flat values
  | inGroups rolled => .flat (rolled.flatMap Rolled.values)
  | inPairs _ pairs => .paired pairs

/-- The values that count. -/
def selected : Hand → List Nat
  | single values => values
  | inGroups rolled => rolled.flatMap Rolled.values
  | inPairs keep pairs => pairs.map keep.pick

def pairText (pair : Nat × Nat) : String :=
  "(" ++ toString pair.1 ++ ", " ++ toString pair.2 ++ ")"

/-- An account of all values. -/
def account (hand : Hand) : String :=
  match hand with
  | single values => bracketed values
  | inGroups rolled => " + ".intercalate (rolled.map toString)
  | inPairs keep pairs =>
    keep.label ++ ": " ++ ", ".intercalate (pairs.map pairText) ++ " -> " ++
      bracketed hand.selected

end Hand

/-- A modifier as it is added to an account: with its sign, or not at all
if it is zero. -/
def modifierSuffix (modifier : Int) : String :=
  if 0 < modifier then " +" ++ toString modifier
  else if modifier < 0 then " " ++ toString modifier
  else ""

/-! ## The outcome -/

/-- The record of a roll: all values, those that count, and in `final` what
these come to with the modifier. -/
structure Outcome where
  format : String
  rollType : RollType
  rolls : Rolls
  selected : List Nat
  final : Int
  modifier : Int
  explanation : String
  isLucky : Bool
  isUnlucky : Bool
  isSecure : Bool
  deriving DecidableEq, Repr

namespace Outcome

/-- The outcome in two lines: the result with what was special about the
roll, then the account, with a warning if the source was not secure. -/
def chatSummary (outcome : Outcome) : String :=
  "🎲 " ++ outcome.format ++ ": " ++ toString outcome.final ++
    (if outcome.rollType = .normal then ""
      else " (" ++ outcome.rollType.label ++ ")") ++
    (if outcome.isLucky then " 🍀" else "") ++
    (if outcome.isUnlucky then " 💀" else "") ++
    "\n" ++ outcome.explanation ++
    (if outcome.isSecure then "" else " ⚠️")

instance : ToString Outcome where
  toString outcome :=
    outcome.format ++ " = " ++ toString outcome.final ++ " (" ++
      outcome.explanation ++ ")"

end Outcome

end DiceRoller
