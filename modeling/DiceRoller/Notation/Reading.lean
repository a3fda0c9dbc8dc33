/-
# Reading notation

Notation is one or more groups of dice joined by plus signs, and at most
one modifier at the end:

    group ('+' group)* [('+' | '-') digits]        group = digits 'd' digits

Three readers go over it one character at a time: one for a group, one for
a modifier, and one for the whole, which holds the groups that are
complete and one of the other two readers' states.

Only a plus sign leaves something open: the digits after it may be the
count of another group or a modifier.  The whole reader treats them as a
count and decides at the first character that is not a digit.  If the text
ends there they are the modifier, provided that it is in range.

Numbers are exact, however many digits they have.  A modifier has to lie
within `modifierBound`; a count or a number of sides is not limited here.
-/
import DiceRoller.Dice
import DiceRoller.Notation.Reader

namespace DiceRoller

/-! ## Numbers -/

/-- The number that has one more digit at its end. -/
def withDigit (n : Option Nat) (c : Char) : Option Nat :=
  some (10 * n.getD 0 + (c.toNat - '0'.toNat))

/-- Modifiers run from minus this number up to the one below it. -/
def modifierBound : Nat := UInt32.size / 2

/-- The number with its sign, if it is in range as a modifier. -/
def modifier? (negative : Bool) (n : Nat) : Option Int :=
  let m : Int := if negative then -n else n
  if -modifierBound ≤ m ∧ m < modifierBound then some m else none

/-! ## A group -/

/-- How far a group has been read.  A number is absent until its first
digit has come. -/
inductive GroupProgress
  | count (n : Option Nat)
  | sides (count : Nat) (n : Option Nat)
  deriving DecidableEq, Repr

namespace GroupProgress

def step : GroupProgress → Char → Except (List Expected) GroupProgress
  | count n, c =>
    if c.isDigit then .ok (count (withDigit n c)) else
    match n with
    | none => .error [.diceCount]
    | some n => if c = 'd' then .ok (sides n none) else .error [.character 'd']
  | sides k n, c =>
    if c.isDigit then .ok (sides k (withDigit n c)) else
    match n with
    | none => .error [.diceSides]
    | some _ => .error [.endOfInput]

def finish : GroupProgress → Except (List Expected) Dice
  | count none => .error [.diceCount]
  | count (some _) => .error [.character 'd']
  | sides _ none => .error [.diceSides]
  | sides k (some n) => .ok ⟨k, n⟩

end GroupProgress

/-- Reads one group of dice and nothing else. -/
def Dice.reader : Reader GroupProgress Dice where
  start := .count none
  step := GroupProgress.step
  finish := GroupProgress.finish

/-! ## A modifier -/

/-- How far a modifier has been read. -/
inductive ModifierProgress
  | sign
  | digits (negative : Bool) (n : Option Nat)
  deriving DecidableEq, Repr

namespace ModifierProgress

/-- One more character of a modifier.  Digits that are too many are
noticed only when they have ended. -/
def step : ModifierProgress → Char → Except (List Expected) ModifierProgress
  | sign, c =>
    if c = '+' then .ok (digits false none)
    else if c = '-' then .ok (digits true none)
    else .error [.character '+', .character '-']
  | digits negative n, c =>
    if c.isDigit then .ok (digits negative (withDigit n c)) else
    match n.bind (modifier? negative) with
    | none => .error []
    | some _ => .error [.endOfInput]

def finish : ModifierProgress → Except (List Expected) Int
  | sign => .error [.modifier]
  | digits negative n =>
    match n.bind (modifier? negative) with
    | none => .error []
    | some m => .ok m

end ModifierProgress

def modifierReader : Reader ModifierProgress Int where
  start := .sign
  step := ModifierProgress.step
  finish := ModifierProgress.finish

/-! ## The whole notation -/

/-- What notation says: the groups from left to right, and what is added
to their total. -/
structure Reading where
  groups : List Dice
  modifier : Int
  deriving DecidableEq, Repr

/-- How far notation has been read: within a group or within a negative
modifier, after the complete groups `done`. -/
inductive Progress
  | group (done : Array Dice) (current : GroupProgress)
  | modifier (done : Array Dice) (current : ModifierProgress)
  deriving DecidableEq, Repr

namespace Progress

/-- What is expected where the current group does not go on: its own
expectation, unless something outside of the group could follow.  After
complete sides that is another group or a modifier; digits after a plus
sign could be a modifier, which ends the text. -/
def expectedAfter (done : Array Dice) (expected : List Expected) :
    GroupProgress → List Expected
  | .sides _ (some _) => [.character '+', .character '-']
  | .count (some n) =>
    if !done.isEmpty && (modifier? false n).isSome then
      [.character 'd', .endOfInput]
    else expected
  | _ => expected

def step : Progress → Char → Except (List Expected) Progress
  | group done (.sides k (some n)), '+' => .ok (group (done.push ⟨k, n⟩) (.count none))
  | group done (.sides k (some n)), '-' =>
    .ok (modifier (done.push ⟨k, n⟩) (.digits true none))
  | group done current, c =>
    match current.step c with
    | .ok current => .ok (group done current)
    | .error expected => .error (expectedAfter done expected current)
  | modifier done current, c =>
    match current.step c with
    | .ok current => .ok (modifier done current)
    | .error expected => .error expected

def finish : Progress → Except (List Expected) Reading
  | group done (.count (some n)) =>
    match if done.isEmpty then none else modifier? false n with
    | some m => .ok ⟨done.toList, m⟩
    | none => .error [.character 'd']
  | group done current =>
    match current.finish with
    | .ok dice => .ok ⟨(done.push dice).toList, 0⟩
    | .error expected => .error expected
  | modifier done current =>
    match current.finish with
    | .ok m => .ok ⟨done.toList, m⟩
    | .error expected => .error expected

end Progress

/-- Reads whole notation, in lower case and without blanks. -/
def Reading.reader : Reader Progress Reading where
  start := .group #[] (.count none)
  step := Progress.step
  finish := Progress.finish

end DiceRoller
