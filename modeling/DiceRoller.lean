import DiceRoller.Text.Blank
import DiceRoller.Dice
import DiceRoller.Notation.Fault
import DiceRoller.Notation.Reader
import DiceRoller.Notation.Reading
import DiceRoller.Notation.Limits
import DiceRoller.Notation.Spec
import DiceRoller.Notation.Parse
import DiceRoller.Source.Basic
import DiceRoller.Source.Uniform
import DiceRoller.Source.Wyrand
import DiceRoller.Bias
import DiceRoller.Roll
import DiceRoller.RollType
import DiceRoller.Outcome
import DiceRoller.Engine
import DiceRoller.Distribution
import DiceRoller.Session
import DiceRoller.CommandLine
import DiceRoller.Main
import DiceRoller.Proofs.Notation.Phrase
import DiceRoller.Proofs.Notation.Recognition
import DiceRoller.Proofs.Notation.Acceptance
import DiceRoller.Proofs.Notation.Diagnosis
import DiceRoller.Proofs.Notation.Printing
import DiceRoller.Proofs.Rolling.Alike
import DiceRoller.Proofs.Rolling.Log
import DiceRoller.Proofs.Rolling.Sequence
import DiceRoller.Proofs.Rolling.Throw
import DiceRoller.Proofs.Rolling.Ending
import DiceRoller.Proofs.Rolling.Room
import DiceRoller.Proofs.Rolling.Selection
import DiceRoller.Proofs.Rolling.Verdict
import DiceRoller.Proofs.Biased.Thresholds
import DiceRoller.Proofs.Rolling.Bounds
import DiceRoller.Proofs.Rolling.Opposites
import DiceRoller.Proofs.Rolling.Pairs
import DiceRoller.Proofs.Rolling.Refusal
import DiceRoller.Proofs.Fairness.ByteStrings
import DiceRoller.Proofs.Fairness.Weights
import DiceRoller.Proofs.Fairness.Turns
import DiceRoller.Proofs.Fairness.Draws
import DiceRoller.Proofs.Generator.Walk
import DiceRoller.Proofs.Account.Explanation
import DiceRoller.Proofs.Account.Chat
import DiceRoller.Proofs.Notation.Precedence
import DiceRoller.Proofs.Rolling.Groupwise
import DiceRoller.Proofs.Session.Agree
import DiceRoller.Proofs.Session.Drawn
import DiceRoller.Proofs.Session.InOrder
import DiceRoller.Proofs.Generator.Blocks
import DiceRoller.Proofs.Session.Seeded
import DiceRoller.Proofs.Account.Audit
import DiceRoller.Proofs.Rolling.Spelling
import DiceRoller.Proofs.Sampling.Histogram
import DiceRoller.Proofs.CommandLine.Arguments
import DiceRoller.Proofs.CommandLine.Input
import DiceRoller.Proofs.Biased.Settling
import DiceRoller.Proofs.Biased.Certainty
