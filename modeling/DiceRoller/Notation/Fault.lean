/-
# Where reading stopped, and why

Dice notation is refused at one place: the first character after which
nothing could save the text.  A `Fault` keeps that place, the character
found there, and what could have stood there instead.  Places are counted
in bytes of UTF-8, so that a span can be cut out of the text as stored.
-/

namespace DiceRoller

/-- Something that a reader would have accepted. -/
inductive Expected
  | diceCount
  | diceSides
  | modifier
  | character (c : Char)
  | endOfInput
  deriving DecidableEq, Repr

/-- The wording of an expectation; characters stand in quotes. -/
def Expected.text : Expected → String
  | diceCount => "dice count"
  | diceSides => "dice sides"
  | modifier => "modifier"
  | character c => "'" ++ String.singleton c ++ "'"
  | endOfInput => "end of input"

/-- Alternatives in words, the last one after an "or"; without any it is
left open what would have done. -/
def Expected.anyOf : List Expected → String
  | [] => "something else"
  | [e] => e.text
  | [e, f] => e.text ++ ", or " ++ f.text
  | e :: es => e.text ++ ", " ++ anyOf es

/-- Where reading stopped, in bytes, the character found there, if any, and
what could have stood there instead. -/
structure Fault where
  start : Nat
  found : Option Char
  expected : List Expected
  deriving DecidableEq, Repr

namespace Fault

/-- The byte after the character found, or `start` at the end of the
text. -/
def stop (fault : Fault) : Nat :=
  fault.start + (fault.found.map Char.utf8Size).getD 0

def message (fault : Fault) : String :=
  let found := (fault.found.map String.singleton).getD "end of input"
  "found " ++ found ++ " expected " ++ Expected.anyOf fault.expected

theorem start_le_stop (fault : Fault) : fault.start ≤ fault.stop :=
  Nat.le_add_right ..

end Fault

end DiceRoller
