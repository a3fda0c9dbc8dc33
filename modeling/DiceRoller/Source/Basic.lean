/-
# Where values come from

Dice are rolled with values from a `Source`: something that holds a state,
answers a request for a number from 1 to `max`, and may fail.  A failed
request leaves a state too, so that a later roll goes on from there and
nothing drawn is drawn twice.  A computation on such a state is a
`Rolling`.

A source promises little.  Whether it keeps to the range it is asked for
is not required here: `constant` and `listed` answer what they hold,
whatever was asked.  What every roll owes to its source is stated for all
of them.
-/

namespace DiceRoller

/-- A reason why dice cannot be rolled.  `capacity` is want of room for their
values, `exhausted` the end of a list of values. -/
inductive DiceError
  | outOfRange (max : Nat)
  | invalidDie (sides : Nat)
  | invalidCount
  | entropy (reason : String)
  | overflow
  | capacity (reason : String)
  | exhausted
  deriving DecidableEq, Repr

def DiceError.message : DiceError → String
  | outOfRange max => "max value must be between 1 and 256, got " ++ toString max
  | invalidDie sides =>
    "die must have between 2 and 100 sides, got " ++ toString sides
  | invalidCount => "must roll at least 1 die"
  | entropy reason => "secure entropy source failed: " ++ reason
  | overflow => "integer overflow"
  | capacity reason => "unable to reserve memory for rolls: " ++ reason
  | exhausted => "iterator is finished"

/-- A computation that draws from a source with states `σ`: it gives a
value or fails, and either way leaves a state. -/
abbrev Rolling (σ : Type) : Type → Type :=
  EStateM DiceError σ

namespace Rolling

variable {σ α : Type}

/-- Rolls `n` times, onto the values so far, which stand in reverse. -/
def timesOnto (roll : Rolling σ α) : Nat → List α → Rolling σ (List α)
  | 0, values => pure values.reverse
  | n + 1, values => do
    let value ← roll
    timesOnto roll n (value :: values)

/-- The same roll `n` times, with the values in the order rolled.  The
first failure ends it. -/
def times (n : Nat) (roll : Rolling σ α) : Rolling σ (List α) :=
  timesOnto roll n []

theorem timesOnto_eq (roll : Rolling σ α) (n : Nat) (values : List α) :
    timesOnto roll n values =
      (times n roll >>= fun more => pure (values.reverse ++ more)) := by
  induction n generalizing values with
  | zero => simp [times, timesOnto]
  | succ n ih =>
      simp only [times, timesOnto]
      simp [ih]

@[simp] theorem times_zero (roll : Rolling σ α) : times 0 roll = pure [] :=
  rfl

theorem times_succ (n : Nat) (roll : Rolling σ α) :
    times (n + 1) roll =
      (roll >>= fun value => times n roll >>= fun more => pure (value :: more)) := by
  rw [times, timesOnto]
  simp only [timesOnto_eq, List.reverse_cons, List.reverse_nil, List.nil_append,
    List.singleton_append]

end Rolling

/-! ## Sources -/

/-- Something that dice are rolled with.  It answers requests for a number from
1 to `max`, is good enough for secrets or not, and may be able to tell
whether there is another value. -/
structure Source (σ : Type) where
  draw : (max : Nat) → Rolling σ Nat
  secure : Bool
  ready? : Option (σ → Bool)

namespace Source

def constant (value : Nat) : Source Unit where
  draw _ := pure value
  secure := false
  ready? := none

def highest : Source Unit where
  draw max := if 1 ≤ max ∧ max ≤ 256 then pure max else throw (.outOfRange max)
  secure := false
  ready? := none

/-- The values of a list, one after the other; the state is what is left
of it. -/
def listed : Source (List Nat) where
  draw _ := fun
    | [] => .error .exhausted []
    | value :: rest => .ok value rest
  secure := false
  ready? := some fun values => !values.isEmpty

/-! ## Counting draws -/

/-- A state together with the number of values drawn on the way to it. -/
structure Counted (σ : Type) where
  state : σ
  draws : Nat
  deriving DecidableEq, Repr

/-- The same source, counting the values it gives.  Failures do not
count. -/
def counted {σ : Type} (source : Source σ) : Source (Counted σ) where
  draw max := fun held =>
    match source.draw max held.state with
    | .ok value state => .ok value ⟨state, held.draws + 1⟩
    | .error error state => .error error ⟨state, held.draws⟩
  secure := source.secure
  ready? := source.ready?.map fun ready held => ready held.state

end Source

end DiceRoller
