/-
# Advantage and disadvantage

A roll with advantage throws two dice for each one asked for and keeps the
higher; with disadvantage it keeps the lower.
-/
import DiceRoller.Text.Blank

namespace DiceRoller

/-- Which of two dice is kept. -/
inductive Keep
  | higher
  | lower
  deriving DecidableEq, Repr

namespace Keep

def pick : Keep → Nat × Nat → Nat
  | higher, (first, second) => max first second
  | lower, (first, second) => min first second

def label : Keep → String
  | higher => "Advantage"
  | lower => "Disadvantage"

end Keep

/-- How the dice of a simple roll are thrown. -/
inductive RollType
  | normal
  | advantage
  | disadvantage
  deriving DecidableEq, Repr

structure UnknownRollType where
  text : String
  deriving DecidableEq, Repr

def UnknownRollType.message (error : UnknownRollType) : String :=
  "unknown roll type: " ++ error.text

namespace RollType

instance : Inhabited RollType := ⟨normal⟩

/-- Which die of each pair is kept, if dice are thrown in pairs. -/
def keep? : RollType → Option Keep
  | normal => none
  | advantage => some .higher
  | disadvantage => some .lower

/-- The name by which a roll type is asked for. -/
def id : RollType → String
  | normal => "normal"
  | advantage => "advantage"
  | disadvantage => "disadvantage"

def label (type : RollType) : String :=
  (type.keep?.map Keep.label).getD "Normal"

instance : ToString RollType where
  toString := id

/-- The roll type with this name, in either case and between any
blanks. -/
def ofText (text : String) : Except UnknownRollType RollType :=
  match String.ofList (lowerCase (trimBlanks text)) with
  | "normal" => .ok normal
  | "advantage" => .ok advantage
  | "disadvantage" => .ok disadvantage
  | _ => .error ⟨text⟩

end RollType

end DiceRoller
