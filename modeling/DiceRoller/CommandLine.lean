/-
# The command line

The arguments are flags and words.  Flags may stand anywhere, and the
words together are the notation; without words the first line of the
standard input is.  What the program then does is a pure function of its
arguments, its input and the source of its values, given room for them: an
exit code and two texts, or a place in the notation to be pointed at.
-/
import DiceRoller.Engine

namespace DiceRoller.CommandLine

/-! ## Arguments -/

/-- An argument with a meaning of its own. -/
inductive Flag
  | advantage
  | disadvantage
  | lucky
  | unlucky
  | formats
  deriving DecidableEq, Repr

/-- The flag that an argument spells, if it is one. -/
def Flag.ofText? : String → Option Flag
  | "-a" | "--advantage" => some advantage
  | "-d" | "--disadvantage" => some disadvantage
  | "-l" | "--lucky" => some lucky
  | "-u" | "--unlucky" => some unlucky
  | "-f" | "--formats" => some formats
  | _ => none

def Flag.rollType? : Flag → Option RollType
  | advantage => some .advantage
  | disadvantage => some .disadvantage
  | _ => none

/-- The flags among the arguments, in order. -/
def flags (args : List String) : List Flag :=
  args.filterMap Flag.ofText?

/-- The arguments that are no flags, in order. -/
def words (args : List String) : List String :=
  args.filter fun arg => (Flag.ofText? arg).isNone

/-- The roll type asked for: of several, the last. -/
def rollType (args : List String) : RollType :=
  ((flags args).filterMap Flag.rollType?).getLast?.getD .normal

def bias (args : List String) : Bias :=
  .ofFlags ((flags args).contains .lucky) ((flags args).contains .unlucky)

/-- What the program is asked to do: to show examples, to roll a text, or to
ask for one. -/
inductive Request
  | formats
  | roll (text : String)
  | ask
  deriving DecidableEq, Repr

/-- What the arguments ask for.  Examples prevail; without any word the
text is still to be asked for. -/
def Request.ofArgs (args : List String) : Request :=
  if (flags args).contains .formats then formats
  else if (words args).isEmpty then ask
  else roll (" ".intercalate (words args))

/-! ## Standard input -/

/-- The bytes before the first newline. -/
def firstLine (bytes : List UInt8) : List UInt8 :=
  bytes.takeWhile (· ≠ 10)

/-- The first line as text, if it is valid UTF-8. -/
def firstLine? (bytes : List UInt8) : Option String :=
  String.fromUTF8? ⟨(firstLine bytes).toArray⟩

/-! ## What is left behind -/

/-- What is written, and how the program ends.  Malformed notation is kept
apart, with its fault, for a report on standard error. -/
structure Exit where
  code : Nat
  stdout : String := ""
  stderr : String := ""
  report : Option (String × Fault) := none
  deriving DecidableEq, Repr

namespace Exit

/-- The examples of notation, on one line. -/
def formats : Exit where
  code := 0
  stdout := ", ".intercalate exampleFormats ++ "\n"

def unreadable : Exit where
  code := 1
  stderr := "Unable to read dice notation: stream did not contain valid UTF-8\n"

/-- A roll that went well; `status` warns of a source that is not
secure. -/
def ofOutcome (status : String) (outcome : Outcome) : Exit where
  code := 0
  stdout := outcome.chatSummary ++ "\n"
  stderr := if outcome.isSecure then "" else status ++ "\n"

def ofError : RollError → Exit
  | .invalidFormat (.malformed text fault) => { code := 1, report := some (text, fault) }
  | error => { code := 1, stderr := error.message ++ "\n" }

def prompt : String := "Enter dice notation: "

def prompted (exit : Exit) : Exit :=
  { exit with stdout := prompt ++ exit.stdout }

end Exit

/-- How many characters of a text take up so many bytes. -/
def column (bytes : Nat) : List Char → Nat
  | [] => 0
  | c :: rest => if bytes = 0 then 0 else column (bytes - c.utf8Size) rest + 1

/-- Malformed notation with a mark under the place of its fault. -/
def reportText (text : String) (fault : Fault) : String :=
  let margin := String.ofList (List.replicate (column fault.start text.toList) ' ')
  "Error: Invalid dice notation\n" ++ text ++ "\n" ++ margin ++ "^ " ++
    fault.message ++ "\nHelp: Use [count]d[sides], e.g. 2d6 or 1d20+5\n"

/-! ## The program -/

section Program

variable {σ : Type} (engine : Engine σ)

/-- Rolls text as the flags ask for. -/
def rollText (args : List String) (text : String) (state : σ) : Exit × σ :=
  match (engine.roll text (rollType args) (bias args)).run state with
  | .ok outcome state => (.ofOutcome engine.securityStatus outcome, state)
  | .error error state => (.ofError error, state)

/-- The whole program, on all bytes of the standard input. -/
def run (args : List String) (stdin : List UInt8) (state : σ) : Exit × σ :=
  match Request.ofArgs args with
  | .formats => (.formats, state)
  | .roll text => rollText engine args text state
  | .ask =>
    match firstLine? stdin with
    | none => (Exit.unreadable.prompted, state)
    | some text =>
      let (exit, state) := rollText engine args text state
      (exit.prompted, state)

end Program

end DiceRoller.CommandLine
