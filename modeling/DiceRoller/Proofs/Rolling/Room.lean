/-
# Rolls that run out of room

Memory has a say in a roll of several dice, for it may refuse the room for
their values, and it has a say in nothing else.  Whatever memory a roll is
given, it ends as it would with room for everything, or else it ends before
that because room was refused (`Curtailed`).  Then it is left in a state
that the roll with room for everything comes through: nothing was drawn that
would not have been drawn anyway, and what was drawn stays drawn.

So what is proved of rolls with room for everything holds of every roll that
does not fail for want of room.  As with plans, it is shown once for every
way of putting rolls together, and then for the operations of the library.
-/
import DiceRoller.Proofs.Rolling.Log

namespace DiceRoller

variable {σ α β : Type}

/-! ## Endings -/

/-- The first ending is the second one, or it comes before it because memory
refused room. -/
inductive Curtailed (memory : Memory) (source : Source σ) :
    EStateM.Result DiceError σ α → EStateM.Result DiceError σ α → Prop
  | same {ending : EStateM.Result DiceError σ α} : Curtailed memory source ending ending
  | short {place count : Nat} {reason : String} {s : σ} {more : List Draw}
      {ending : EStateM.Result DiceError σ α} (hmemory : memory place count = some reason)
      (hmore : source.Gave s more (endState ending)) :
      Curtailed memory source (.error (.capacity reason) s) ending

/-- A roll that memory may curtail, and the same roll with room for
everything.  The state only changes by what is drawn. -/
structure Curtails (memory : Memory) (source : Source σ) (roll free : Rolling σ α) : Prop where
  ends : ∀ s, Curtailed memory source (roll.run s) (free.run s)
  gave : ∀ s, ∃ draws, source.Gave s draws (endState (free.run s))

theorem Curtailed.of_after {memory : Memory} {n : Nat} {source : Source σ}
    {ending free : EStateM.Result DiceError σ α}
    (h : Curtailed (memory.after n) source ending free) : Curtailed memory source ending free := by
  cases h with
  | same => exact .same
  | short hmemory hmore => exact .short hmemory hmore

namespace Curtails

variable {memory : Memory} {source : Source σ} {roll free roll' free' : Rolling σ α}

/-- Memory has no say in what reserves nothing. -/
theorem of_planned {roll : (σ : Type) → Source σ → Rolling σ α} (h : Planned roll) :
    Curtails memory source (roll σ source) (roll σ source) where
  ends := fun _ => .same
  gave := by
    intro s
    have hend := h.alike (logged_answerAlike source s) ⟨s, []⟩ s ⟨rfl, .nil⟩
    generalize (roll _ source.logged).run ⟨s, []⟩ = logged at hend
    generalize (roll σ source).run s = plain at hend ⊢
    cases hend with
    | ok halong => exact ⟨_, halong.2⟩
    | error halong => exact ⟨_, halong.2⟩

/-- Nothing is given that would not be given with room for everything. -/
theorem of_ok (h : Curtails memory source roll free) {a : α} {s t : σ}
    (hrun : roll.run s = .ok a t) : free.run s = .ok a t := by
  have hends := h.ends s
  rw [hrun] at hends
  generalize free.run s = full at hends
  cases hends with
  | same => rfl

protected theorem pure (value : α) :
    Curtails memory source (pure value) (pure value) where
  ends := fun _ => .same
  gave := fun _ => ⟨[], .nil⟩

protected theorem throw (error : DiceError) :
    Curtails memory source (throw error : Rolling σ α) (throw error) where
  ends := fun _ => .same
  gave := fun _ => ⟨[], .nil⟩

theorem reserve (count : Nat) :
    Curtails memory source (memory.reserve count) (pure ()) where
  ends := by
    intro s
    rw [Memory.reserve]
    cases hmemory : memory 0 count with
    | none => exact .same
    | some reason => exact .short hmemory .nil
  gave := fun _ => ⟨[], .nil⟩

theorem of_after {n : Nat} (h : Curtails (memory.after n) source roll free) :
    Curtails memory source roll free :=
  ⟨fun s => (h.ends s).of_after, h.gave⟩

protected theorem bind {next next' : α → Rolling σ β} (h : Curtails memory source roll free)
    (hnext : ∀ a, Curtails memory source (next a) (next' a)) :
    Curtails memory source (roll >>= next) (free >>= next') := by
  -- where the first roll ends, the whole goes on by draws alone
  have hlater : ∀ s, ∃ draws,
      source.Gave (endState (free.run s)) draws (endState ((free >>= next').run s)) := by
    intro s
    rw [EStateM.run_bind]
    cases free.run s with
    | ok a t => exact (hnext a).gave t
    | error error t => exact ⟨[], .nil⟩
  constructor
  · intro s
    obtain ⟨later, hlater⟩ := hlater s
    have hends := h.ends s
    rw [EStateM.run_bind] at hlater ⊢
    rw [EStateM.run_bind]
    generalize roll.run s = ending at hends
    generalize free.run s = full at hends hlater ⊢
    cases hends with
    | same =>
        cases ending with
        | ok a t => exact (hnext a).ends t
        | error error t => exact .same
    | short hmemory hmore => exact .short hmemory (hmore.append hlater)
  · intro s
    obtain ⟨draws, hgave⟩ := h.gave s
    obtain ⟨later, hlater⟩ := hlater s
    exact ⟨draws ++ later, hgave.append hlater⟩

theorem ite {p : Prop} [Decidable p] (h : p → Curtails memory source roll free)
    (h' : ¬p → Curtails memory source roll' free') :
    Curtails memory source (if p then roll else roll') (if p then free else free') := by
  by_cases hp : p
  · rw [if_pos hp, if_pos hp]
    exact h hp
  · rw [if_neg hp, if_neg hp]
    exact h' hp

theorem mapM {f g : β → Rolling σ α} (h : ∀ b, Curtails memory source (f b) (g b))
    (bs : List β) : Curtails memory source (bs.mapM f) (bs.mapM g) := by
  induction bs with
  | nil => exact .pure []
  | cons b bs ih =>
      rw [List.mapM_cons, List.mapM_cons]
      exact (h b).bind fun a => ih.bind fun as => .pure (a :: as)

end Curtails

/-! ## Operations -/

section Operations

variable (memory : Memory) (source : Source σ)

theorem rollMany_curtails (count sides : Nat) (bias : Bias) :
    Curtails memory source (source.rollMany count sides bias memory)
      (source.rollMany count sides bias) := by
  have htimes : Planned fun _ source => Rolling.times count (source.rollDie sides bias) :=
    (rollDie_planned sides bias).times count
  rw [Source.rollMany, Source.rollMany]
  exact .ite (fun _ => .throw _) fun _ => .ite (fun _ => .throw _) fun _ =>
    .ite (fun _ => .throw _) fun _ => (Curtails.reserve count).bind fun _ => .of_planned htimes

theorem rollDice_curtails (dice : Dice) (bias : Bias) :
    Curtails memory source (source.rollDice dice bias memory) (source.rollDice dice bias) :=
  (rollMany_curtails memory source dice.count dice.sides bias).bind fun values =>
    .pure (Rolled.mk dice values)

theorem rollGroup_curtails (dice : Dice) (bias : Bias) :
    Curtails memory source (source.rollGroup dice bias memory)
      (source.rollGroup dice bias .unlimited) :=
  (rollDice_curtails memory source dice bias).bind fun rolled =>
    (Curtails.reserve dice.count).of_after.bind fun _ => .pure rolled

theorem rollShape_curtails (type : RollType) (bias : Bias) (shape : Shape) :
    Curtails memory source (source.rollShape type bias shape memory)
      (source.rollShape type bias shape) := by
  cases shape with
  | complex groups =>
      have hgroup : ∀ group : Dice × Nat,
          Curtails memory source (source.rollGroup group.1 bias (memory.after (2 * group.2)))
            (source.rollGroup group.1 bias .unlimited) :=
        fun group =>
          (rollGroup_curtails (memory.after (2 * group.2)) source group.1 bias).of_after
      exact (Curtails.mapM hgroup groups.zipIdx).bind fun rolled => .pure (Hand.inGroups rolled)
  | simple dice =>
      rw [Source.rollShape, Source.rollShape]
      cases type.keep? with
      | none =>
          exact (rollMany_curtails memory source dice.count dice.sides bias).bind
            fun values => .pure (Hand.single values)
      | some keep =>
          have htimes : Planned fun _ source =>
              Rolling.times dice.count (source.rollPair dice.sides bias) :=
            (rollPair_planned dice.sides bias).times dice.count
          exact .ite (fun _ => .throw _) fun _ => (Curtails.reserve dice.count).bind fun _ =>
            (Curtails.of_planned htimes).bind fun pairs => .pure (Hand.inPairs keep pairs)

/-- A spec is rolled as with room for everything, or the roll ends before
that for want of room. -/
theorem rollSpec_curtails (engine : Engine σ) (spec : Spec) (type : RollType) (bias : Bias) :
    Curtails memory engine.source (engine.rollSpec spec type bias memory)
      (engine.rollSpec spec type bias) := by
  rw [Engine.rollSpec, Engine.rollSpec]
  refine .ite (fun _ => .throw _) fun _ =>
    (rollShape_curtails memory engine.source type bias spec.shape).bind fun hand => ?_
  cases total? hand.selected with
  | none => exact .throw _
  | some total => exact .pure _

end Operations

end DiceRoller
