/-
# Sessions

A session is a list of things to be done with one engine, one after the
other.  A step that fails does not end it: what the step drew stays drawn,
and the next one goes on from there.  A step can also be taken aside, on a
copy of the engine, which leaves the engine as it was.  There is room for
the values of every step.

Values drawn are counted from the beginning of the session, so that after
every step it can be told how many there were.
-/
import DiceRoller.Distribution
import DiceRoller.Engine

namespace DiceRoller

/-- One thing to be done with an engine, or aside, with a copy of it. -/
inductive Step
  | roll (text : String) (type : RollType) (bias : Bias)
  | rollSpec (spec : Spec) (type : RollType) (bias : Bias)
  | draw (max : Nat)
  | rollDie (sides : Nat) (bias : Bias)
  | rollMany (count sides : Nat) (bias : Bias)
  | rollDice (dice : Dice) (bias : Bias)
  | settle (bias : Bias) (first sides : Nat)
  | sample (sides rolls : Nat)
  | ready
  | security
  | limits
  | aside (step : Step)
  deriving DecidableEq, Repr

/-- What comes of a step.  One that was taken aside also tells how many values
were drawn by then. -/
inductive Answer
  | outcome (outcome : Outcome)
  | value (value : Nat)
  | values (values : List Nat)
  | rolled (rolled : Rolled)
  | sample (sample : Distribution)
  | ready (isReady : Option Bool)
  | security (isSecure : Bool) (status : String)
  | limits (limits : Limits)
  | failed (cause : RollError)
  | aside (answer : Answer) (draws : Nat)
  deriving DecidableEq, Repr

namespace Step

variable {σ : Type}

/-- The answer to a computation that may fail, and the state it leaves. -/
def answerOf {ε α : Type} (wrap : α → Answer) (cause : ε → RollError)
    (run : EStateM ε σ α) (state : σ) : Answer × σ :=
  match run.run state with
  | .ok value state => (wrap value, state)
  | .error error state => (.failed (cause error), state)

def take (engine : Engine σ) (step : Step) (held : Source.Counted σ) :
    Answer × Source.Counted σ :=
  let source := engine.source.counted
  match step with
  | roll text type bias =>
    answerOf .outcome id (engine.counted.roll text type bias) held
  | rollSpec spec type bias =>
    answerOf .outcome .dice (engine.counted.rollSpec spec type bias) held
  | draw max => answerOf .value .dice (source.draw max) held
  | rollDie sides bias => answerOf .value .dice (source.rollDie sides bias) held
  | rollMany count sides bias =>
    answerOf .values .dice (source.rollMany count sides bias) held
  | rollDice dice bias => answerOf .rolled .dice (source.rollDice dice bias) held
  | settle bias first sides =>
    answerOf .value .dice (source.settle bias first sides) held
  | sample sides rolls => answerOf .sample .dice (source.sample sides rolls) held
  | ready => (.ready (source.ready?.map (· held)), held)
  | security => (.security source.secure engine.securityStatus, held)
  | limits => (.limits engine.limits, held)
  | aside step =>
    let (answer, copy) := take engine step held
    (.aside answer copy.draws, held)

end Step

/-- The answers of a session from what is held at its beginning, each with
the number of values drawn by then. -/
def sessionFrom {σ : Type} (engine : Engine σ) :
    List Step → Source.Counted σ → List (Answer × Nat)
  | [], _ => []
  | step :: steps, held =>
    let (answer, held) := step.take engine held
    (answer, held.draws) :: sessionFrom engine steps held

def session {σ : Type} (engine : Engine σ) (start : σ) (steps : List Step) :
    List (Answer × Nat) :=
  sessionFrom engine steps ⟨start, 0⟩

end DiceRoller
