/-
# From text to a spec

Blanks are dropped and letters lowered before the text is read, so that
`2D6 + 3` and `2d6+3` ask for the same roll.  The spec keeps the text as
typed, only without its blanks, and so does the error for a malformed
text: lowering changes no character's length, so the place of the fault is
right in either.

The order of the reasons is fixed: nothing to read, then malformed text,
then the first group from the left that is out of bounds.
-/
import DiceRoller.Notation.Limits
import DiceRoller.Notation.Reading
import DiceRoller.Notation.Spec
import DiceRoller.Text.Blank

namespace DiceRoller

def normalize (text : String) : String :=
  String.ofList (dropBlanks text)

/-- Reads notation under the given limits, or says why it is refused. -/
def parse (limits : Limits) (text : String) : Except ParseError Spec := do
  let kept := dropBlanks text
  if kept.isEmpty then throw .empty
  match Reading.reader.read (lowerCase kept) with
  | .error fault => throw (.malformed (normalize text) fault)
  | .ok reading =>
    let groups ← reading.groups.mapM limits.check
    return ⟨Shape.ofGroups groups, reading.modifier, normalize text⟩

def isValid (limits : Limits) (text : String) : Bool :=
  match parse limits text with
  | .ok _ => true
  | .error _ => false

/-- Why the notation is refused, in words, if it is. -/
def errorMessage? (limits : Limits) (text : String) : Option String :=
  match parse limits text with
  | .ok _ => none
  | .error error => some error.message

def exampleFormats : List String :=
  ["1d4", "1d6", "1d8", "1d10", "1d12", "1d20", "1d100", "2d6", "3d8", "4d6",
    "1d20+5", "2d6-2", "1d8+3"]

end DiceRoller
