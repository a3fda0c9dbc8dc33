/-
# Rolling notation

An `Engine` is a source of values together with limits for notation.  It
rolls text, or a spec that was made in another way, and gives the outcome
with its account.

The order of refusals is fixed.  If the dice together could total too much
nothing is drawn.  Otherwise the dice are rolled from left to right, and
the first group that cannot be rolled, or for whose values there is no room,
ends the roll; what was drawn before it stays drawn.
-/
import DiceRoller.Notation.Parse
import DiceRoller.Outcome
import DiceRoller.Roll

namespace DiceRoller

/-- A reason for which a roll of notation fails. -/
inductive RollError
  | invalidFormat (cause : ParseError)
  | dice (cause : DiceError)
  deriving DecidableEq, Repr

def RollError.message : RollError → String
  | invalidFormat cause => "invalid dice format: " ++ cause.message
  | dice cause => cause.message

/-- Rolls the dice of a spec.  Pairs are thrown for single groups only.
Each group makes two reservations, everything else makes one. -/
def Source.rollShape {σ : Type} (source : Source σ) (type : RollType) (bias : Bias)
    (shape : Shape) (memory : Memory := .unlimited) : Rolling σ Hand :=
  match shape with
  | .complex groups => do
    let rolled ← groups.zipIdx.mapM fun (dice, place) =>
      source.rollGroup dice bias (memory.after (2 * place))
    pure (.inGroups rolled)
  | .simple dice =>
    match type.keep? with
    | none => do
      let values ← source.rollMany dice.count dice.sides bias memory
      pure (.single values)
    | some keep =>
      if dice.count = 0 then throw .invalidCount
      else do
        memory.reserve dice.count
        let pairs ← Rolling.times dice.count (source.rollPair dice.sides bias)
        pure (.inPairs keep pairs)

/-! ## With room for everything -/

section Unlimited

variable {σ : Type} (source : Source σ) (type : RollType) (bias : Bias)

theorem rollShape_complex (groups : List Dice) :
    source.rollShape type bias (.complex groups) =
      (do
        let rolled ← groups.mapM fun dice => source.rollDice dice bias
        pure (.inGroups rolled)) := by
  have hgroups : (groups.zipIdx.mapM fun group => source.rollDice group.1 bias) =
      groups.mapM fun dice => source.rollDice dice bias := by
    have hmap : (groups.zipIdx.map Prod.fst).mapM (fun dice => source.rollDice dice bias) =
        groups.zipIdx.mapM fun group => source.rollDice group.1 bias := List.mapM_map
    rw [← hmap, List.zipIdx_map_fst]
  simp only [Source.rollShape, Memory.after_unlimited, Source.rollGroup_unlimited, hgroups]

theorem rollShape_simple (dice : Dice) :
    source.rollShape type bias (.simple dice) =
      match type.keep? with
      | none => (do
          let values ← source.rollMany dice.count dice.sides bias
          pure (.single values))
      | some keep =>
        if dice.count = 0 then throw .invalidCount
        else (do
          let pairs ← Rolling.times dice.count (source.rollPair dice.sides bias)
          pure (.inPairs keep pairs)) := by
  simp only [Source.rollShape, Memory.reserve_unlimited, pure_bind]

end Unlimited

/-! ## Engines -/

/-- A source of values, and the limits for notation. -/
structure Engine (σ : Type) where
  source : Source σ
  limits : Limits := default

namespace Engine

variable {σ : Type} (engine : Engine σ)

/-- The record of a roll that gave this hand, with the total of the values
that count. -/
def record (spec : Spec) (type : RollType) (bias : Bias) (hand : Hand)
    (total : Nat) : Outcome where
  format := spec.format
  rollType := type
  rolls := hand.rolls
  selected := hand.selected
  final := total + spec.modifier
  modifier := spec.modifier
  explanation := hand.account ++ modifierSuffix spec.modifier
  isLucky := bias.isLucky
  isUnlucky := bias.isUnlucky
  isSecure := engine.source.secure

def rollSpec (spec : Spec) (type : RollType) (bias : Bias) (memory : Memory := .unlimited) :
    Rolling σ Outcome :=
  if totalBound ≤ spec.highest then throw .overflow
  else do
    let hand ← engine.source.rollShape type bias spec.shape memory
    match total? hand.selected with
    | some total => pure (engine.record spec type bias hand total)
    | none => throw .overflow

/-- Reads notation and rolls it. -/
def roll (text : String) (type : RollType) (bias : Bias) (memory : Memory := .unlimited) :
    EStateM RollError σ Outcome :=
  match parse engine.limits text with
  | .error cause => throw (.invalidFormat cause)
  | .ok spec => (engine.rollSpec spec type bias memory).adaptExcept .dice

def counted : Engine (Source.Counted σ) where
  source := engine.source.counted
  limits := engine.limits

def securityStatus : String :=
  if engine.source.secure then "Using secure random number generation"
  else "Warning: using less secure random number generation"

end Engine

end DiceRoller
