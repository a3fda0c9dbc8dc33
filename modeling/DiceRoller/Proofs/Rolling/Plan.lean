/-
# What a roll asks for

Rolling asks a source for one value after the other.  What it asks for
next depends on the values it was given and on nothing else: neither the
state of the source nor the way it comes by its values plays a part.  A
`Plan` is that much of a roll and no more, and carrying it out with a
source (`Plan.run`) gives the roll back.

| | |
| :-- | :-- |
| `Planned roll` | one plan is the roll for every source |
| `Planned.pure`, `.refuse`, `.draw` | the smallest rolls are planned |
| `Planned.bind`, `.ite`, `.mapM`, `.times` | and so is what is put together from planned rolls |
| `reroll_planned`, …, `rollSpec_planned` | every operation of the library is planned |

What is to be shown of all rolls is thereby shown by one induction, over
plans.
-/
import Mathlib.Tactic.Choose
import DiceRoller.Distribution
import DiceRoller.Engine

namespace DiceRoller

variable {σ α β : Type}

/-! ## Plans -/

/-- A roll fails for this reason by itself, and not because the source
failed. -/
def DiceError.IsRefusal : DiceError → Prop
  | invalidDie _ | invalidCount | overflow | capacity _ => True
  | outOfRange _ | entropy _ | exhausted => False

/-- What is asked for, with the answers so far in view, and what comes of
it. -/
inductive Plan (α : Type)
  | done (value : α)
  | refuse (error : DiceError) (isRefusal : error.IsRefusal)
  | ask (max : Nat) (next : Nat → Plan α)

namespace Plan

/-- Carries out a plan.  If the source fails the plan is given up. -/
def run (source : Source σ) : Plan α → Rolling σ α
  | done value => pure value
  | refuse error _ => throw error
  | ask max next => source.draw max >>= fun value => (next value).run source

def bind : Plan α → (α → Plan β) → Plan β
  | done value, after => after value
  | refuse error isRefusal, _ => refuse error isRefusal
  | ask max next, after => ask max fun value => (next value).bind after

theorem run_bind (source : Source σ) (plan : Plan α) (after : α → Plan β) :
    (plan.bind after).run source = plan.run source >>= fun a => (after a).run source := by
  induction plan with
  | done value => rw [bind, run, pure_bind]
  | refuse error isRefusal => rfl
  | ask max next ih =>
      simp only [bind, run, bind_assoc]
      exact bind_congr ih

end Plan

/-! ## Planned rolls -/

/-- One plan is the roll for every source. -/
def Planned (roll : (σ : Type) → Source σ → Rolling σ α) : Prop :=
  ∃ plan : Plan α, ∀ (σ : Type) (source : Source σ), roll σ source = plan.run source

namespace Planned

variable {roll roll' : (σ : Type) → Source σ → Rolling σ α}

protected theorem pure (value : α) : Planned fun _ _ => pure value :=
  ⟨.done value, fun _ _ => rfl⟩

theorem refuse {error : DiceError} (h : error.IsRefusal) :
    Planned fun _ _ => (throw error : Rolling _ α) :=
  ⟨.refuse error h, fun _ _ => rfl⟩

theorem draw (max : Nat) : Planned fun _ source => source.draw max :=
  ⟨.ask max .done, fun _ source => (bind_pure (source.draw max)).symm⟩

protected theorem bind {next : α → (σ : Type) → Source σ → Rolling σ β} (h : Planned roll)
    (hnext : ∀ a, Planned (next a)) :
    Planned fun σ source => roll σ source >>= fun a => next a σ source := by
  obtain ⟨plan, hplan⟩ := h
  choose after hafter using hnext
  refine ⟨plan.bind after, fun σ source => ?_⟩
  dsimp only
  rw [Plan.run_bind, hplan]
  exact bind_congr fun a => hafter a σ source

theorem ite {p : Prop} [Decidable p] (h : p → Planned roll) (h' : ¬p → Planned roll') :
    Planned fun σ source => if p then roll σ source else roll' σ source := by
  by_cases hp : p
  · simp only [if_pos hp]
    exact h hp
  · simp only [if_neg hp]
    exact h' hp

theorem mapM {f : β → (σ : Type) → Source σ → Rolling σ α} (h : ∀ b, Planned (f b))
    (bs : List β) : Planned fun σ source => bs.mapM fun b => f b σ source := by
  induction bs with
  | nil => exact Planned.pure []
  | cons b bs ih =>
      simp only [List.mapM_cons]
      exact (h b).bind fun a => ih.bind fun as => Planned.pure (a :: as)

theorem times (h : Planned roll) (n : Nat) :
    Planned fun σ source => Rolling.times n (roll σ source) := by
  induction n with
  | zero => exact Planned.pure []
  | succ n ih =>
      simp only [Rolling.times_succ]
      exact h.bind fun a => ih.bind fun as => Planned.pure (a :: as)

end Planned

/-! ## Operations -/

theorem reroll_planned (condition : Condition) (sides limit value : Nat) :
    Planned fun _ source => source.reroll condition sides limit value := by
  induction limit generalizing value with
  | zero => exact Planned.pure value
  | succ limit ih =>
      simp only [Source.reroll]
      exact .ite (fun _ => (Planned.draw sides).bind ih) fun _ => Planned.pure value

theorem settle_planned (bias : Bias) (first sides : Nat) :
    Planned fun _ source => source.settle bias first sides := by
  simp only [Source.settle]
  cases bias.rerollCondition? sides with
  | none => exact Planned.pure first
  | some condition => exact reroll_planned condition sides rerollLimit first

theorem rollDie_planned (sides : Nat) (bias : Bias) :
    Planned fun _ source => source.rollDie sides bias := by
  simp only [Source.rollDie]
  exact .ite (fun _ => (Planned.draw sides).bind fun first => settle_planned bias first sides)
    fun _ => .refuse trivial

theorem rollPair_planned (sides : Nat) (bias : Bias) :
    Planned fun _ source => source.rollPair sides bias :=
  (rollDie_planned sides bias).bind fun first =>
    (rollDie_planned sides bias).bind fun second => Planned.pure (first, second)

theorem reserve_planned (memory : Memory) (count : Nat) :
    Planned fun σ _ => (memory.reserve count : Rolling σ Unit) := by
  simp only [Memory.reserve]
  cases memory 0 count with
  | none => exact Planned.pure ()
  | some reason => exact .refuse trivial

theorem rollMany_planned (count sides : Nat) (bias : Bias) (memory : Memory := .unlimited) :
    Planned fun _ source => source.rollMany count sides bias memory := by
  simp only [Source.rollMany]
  exact .ite (fun _ => .refuse trivial) fun _ =>
    .ite (fun _ => .refuse trivial) fun _ =>
    .ite (fun _ => .refuse trivial) fun _ =>
      (reserve_planned memory count).bind fun _ => (rollDie_planned sides bias).times count

theorem rollDice_planned (dice : Dice) (bias : Bias) (memory : Memory := .unlimited) :
    Planned fun _ source => source.rollDice dice bias memory :=
  (rollMany_planned dice.count dice.sides bias memory).bind fun values =>
    Planned.pure (Rolled.mk dice values)

theorem rollGroup_planned (dice : Dice) (bias : Bias) (memory : Memory) :
    Planned fun _ source => source.rollGroup dice bias memory :=
  (rollDice_planned dice bias memory).bind fun rolled =>
    (reserve_planned (memory.after 1) dice.count).bind fun _ => Planned.pure rolled

theorem sample_planned (sides rolls : Nat) :
    Planned fun _ source => source.sample sides rolls :=
  ((rollDie_planned sides .fair).times rolls).bind fun values =>
    Planned.pure (Distribution.mk sides rolls (tally sides values))

theorem rollShape_planned (type : RollType) (bias : Bias) (shape : Shape)
    (memory : Memory := .unlimited) :
    Planned fun _ source => source.rollShape type bias shape memory := by
  cases shape with
  | complex groups =>
      have hgroups := Planned.mapM (fun (group : Dice × Nat) =>
        rollGroup_planned group.1 bias (memory.after (2 * group.2))) groups.zipIdx
      exact hgroups.bind fun rolled => Planned.pure (Hand.inGroups rolled)
  | simple dice =>
      simp only [Source.rollShape]
      cases type.keep? with
      | none =>
          exact (rollMany_planned dice.count dice.sides bias memory).bind
            fun values => Planned.pure (Hand.single values)
      | some keep =>
          exact .ite (fun _ => .refuse trivial) fun _ =>
            (reserve_planned memory dice.count).bind fun _ =>
            ((rollPair_planned dice.sides bias).times dice.count).bind
              fun pairs => Planned.pure (Hand.inPairs keep pairs)

/-! ## Specs

An outcome says whether its values are secure.  So there are two plans for
a spec, one for secure sources and one for the others. -/

/-- Some engine that is secure or not; with what it rolls does not
matter. -/
def Engine.ofSecurity (secure : Bool) : Engine Unit where
  source := { Source.highest with secure := secure }

def Plan.ofHand (secure : Bool) (spec : Spec) (type : RollType) (bias : Bias) (hand : Hand) :
    Plan Outcome :=
  match total? hand.selected with
  | some total => .done ((Engine.ofSecurity secure).record spec type bias hand total)
  | none => .refuse .overflow trivial

theorem rollSpec_planned (secure : Bool) (spec : Spec) (type : RollType) (bias : Bias)
    (memory : Memory := .unlimited) :
    ∃ plan : Plan Outcome, ∀ (σ : Type) (engine : Engine σ), engine.source.secure = secure →
      engine.rollSpec spec type bias memory = plan.run engine.source := by
  by_cases hlarge : totalBound ≤ spec.highest
  · refine ⟨.refuse .overflow trivial, fun σ engine _ => ?_⟩
    rw [Engine.rollSpec, if_pos hlarge]
    rfl
  · obtain ⟨plan, hplan⟩ := rollShape_planned type bias spec.shape memory
    refine ⟨plan.bind (Plan.ofHand secure spec type bias), fun σ engine hsecure => ?_⟩
    have hshape : engine.source.rollShape type bias spec.shape memory = plan.run engine.source :=
      hplan σ engine.source
    rw [Engine.rollSpec, if_neg hlarge, Plan.run_bind, hshape]
    refine bind_congr fun hand => ?_
    rw [Plan.ofHand]
    cases total? hand.selected with
    | none => rfl
    | some total => simp only [Plan.run, Engine.record, Engine.ofSecurity, hsecure]

end DiceRoller
