/-
# The program

Everything that the program decides is in `CommandLine`.  Here its
arguments and its input are read, random bytes are asked of the system,
and the texts are written.

Nobody knows beforehand how many bytes a roll takes.  So it is tried with
those at hand, and if they run out it is tried once more with further
bytes after the same ones: what they decided they decide again.
-/
import DiceRoller.CommandLine
import DiceRoller.Source.Uniform

namespace DiceRoller.CommandLine

/-- An engine that rolls with the bytes of the system. -/
def systemEngine : Engine (List UInt8) where
  source := { Source.bytes with secure := true }

/-- Rolls text with the given bytes and as many more as it takes. -/
partial def rollWith (args : List String) (text : String) (bytes : List UInt8) : IO Exit := do
  let result := (systemEngine.roll text (rollType args) (bias args)).run bytes
  match result with
  | .ok outcome _ => return .ofOutcome systemEngine.securityStatus outcome
  | .error (.dice (.entropy _)) _ =>
    let more ← IO.getRandomBytes (bytes.length + 4096).toUSize
    rollWith args text (bytes ++ more.toList)
  | .error error _ => return .ofError error

/-- The bytes of a stream up to a newline or to its end, in reverse. -/
partial def lineOnto (stream : IO.FS.Stream) (bytes : List UInt8) : IO (List UInt8) := do
  match (← stream.read 1).toList with
  | [] => return bytes
  | byte :: _ => if byte = 10 then return bytes else lineOnto stream (byte :: bytes)

/-- Writes what is left behind and gives the exit code. -/
def leave (exit : Exit) : IO UInt32 := do
  IO.print exit.stdout
  IO.eprint exit.stderr
  if let some (text, fault) := exit.report then
    IO.eprint (reportText text fault)
  return exit.code.toUInt32

/-- What the program does: asks for notation if it was given none, and
rolls it. -/
def program (args : List String) : IO UInt32 := do
  match Request.ofArgs args with
  | .formats => leave .formats
  | .roll text => leave (← rollWith args text [])
  | .ask =>
    IO.print Exit.prompt
    (← IO.getStdout).flush
    match firstLine? (← lineOnto (← IO.getStdin) []).reverse with
    | none => leave .unreadable
    | some text => leave (← rollWith args text [])

end DiceRoller.CommandLine

def main (args : List String) : IO UInt32 :=
  DiceRoller.CommandLine.program args
