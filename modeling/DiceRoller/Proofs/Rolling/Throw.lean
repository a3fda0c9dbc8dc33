/-
# Every value is a genuine draw

All draws of a roll, as its log tells them, are the draws of its dice, one
block for each die and the blocks in the order of the dice.  A block is
what one die may do and no more:

| | |
| :-- | :-- |
| requests | every draw asks for a number up to the sides of the die |
| rejected | every draw but the last is a value that the bias rolls again |
| the last | is the value of the die; it is one that the bias keeps, or there have been `rerollLimit` rejected draws before it |

A `Throw` is such a block.  The bounds are fields of it, so there is no
block that breaks them.  A roll that a failing source ends leaves whole
throws, then the rejected draws of one `BrokenThrow`, then the failure,
and nothing after it.

The induction goes over three loops: the rerolls of a die, the dice in a
row, the groups.  `Traced` is what each of them preserves: whatever is in
the log already stays, and what is added is described by the ending.
-/
import Mathlib.Data.List.Basic
import DiceRoller.Proofs.Rolling.Log
import DiceRoller.Proofs.Rolling.Sequence

namespace DiceRoller

variable {σ α β : Type}

/-! ## Throws -/

def Bias.rerolls (bias : Bias) (sides value : Nat) : Bool :=
  (bias.rerollCondition? sides).any fun condition => condition.holds value

def drawsOf (sides : Nat) (values : List Nat) : List Draw :=
  values.map fun value => ⟨sides, .ok value⟩

/-- All that is drawn for one die: the values that were rolled again, in order,
and then the one that stands. -/
structure Throw (bias : Bias) where
  sides : Nat
  rejected : List Nat
  value : Nat
  rollable : Rollable sides
  rejected_length : rejected.length ≤ rerollLimit
  rerolls_of_mem : ∀ v ∈ rejected, bias.rerolls sides v = true
  length_of_rerolls : bias.rerolls sides value = true → rejected.length = rerollLimit

def Throw.draws {bias : Bias} (throw : Throw bias) : List Draw :=
  drawsOf throw.sides (throw.rejected ++ [throw.value])

/-- All that is drawn for one die until the source fails. -/
structure BrokenThrow (bias : Bias) where
  sides : Nat
  rejected : List Nat
  rollable : Rollable sides
  rejected_length : rejected.length ≤ rerollLimit
  rerolls_of_mem : ∀ v ∈ rejected, bias.rerolls sides v = true

/-- The draws of a broken throw, the last of which fails. -/
def BrokenThrow.draws {bias : Bias} (broken : BrokenThrow bias) (error : DiceError) :
    List Draw :=
  drawsOf broken.sides broken.rejected ++ [⟨broken.sides, .error error⟩]

@[simp] theorem Bias.rerolls_fair (sides value : Nat) : Bias.fair.rerolls sides value = false :=
  rfl

namespace Throw

variable {bias : Bias} (throw : Throw bias)

theorem length_draws : throw.draws.length = throw.rejected.length + 1 := by
  simp [draws, drawsOf]

theorem length_draws_pos : 1 ≤ throw.draws.length := by
  rw [throw.length_draws]
  exact Nat.le_add_left 1 throw.rejected.length

theorem length_draws_le : throw.draws.length ≤ rerollLimit + 1 := by
  rw [throw.length_draws]
  exact Nat.succ_le_succ throw.rejected_length

theorem kept_of_length_draws_lt (h : throw.draws.length < rerollLimit + 1) :
    bias.rerolls throw.sides throw.value = false := by
  rw [throw.length_draws] at h
  refine Bool.eq_false_iff.mpr fun hrerolls => ?_
  rw [throw.length_of_rerolls hrerolls] at h
  exact Nat.lt_irrefl _ h

theorem length_draws_of_fair (throw : Throw .fair) : throw.draws.length = 1 := by
  have hrejected : throw.rejected = [] := by
    refine List.eq_nil_iff_forall_not_mem.mpr fun v hv => ?_
    have hrerolls := throw.rerolls_of_mem v hv
    rw [Bias.rerolls_fair] at hrerolls
    exact Bool.noConfusion hrerolls
  rw [throw.length_draws, hrejected]
  rfl

end Throw

theorem Bias.rerolls_of_condition {bias : Bias} {sides : Nat} {condition : Condition}
    (h : bias.rerollCondition? sides = some condition) (value : Nat) :
    bias.rerolls sides value = condition.holds value := by
  rw [rerolls, h]
  rfl

/-! ## What is added to the log -/

/-- However the roll ends, it adds draws to the log that suit the ending. -/
def Traced (roll : Rolling (Source.Logged σ) α) (Done : List Draw → α → Prop)
    (Failed : List Draw → DiceError → Prop) : Prop :=
  ∀ held, match roll.run held with
    | .ok a held' => ∃ draws, held'.log = held.log ++ draws ∧ Done draws a
    | .error e held' => ∃ draws, held'.log = held.log ++ draws ∧ Failed draws e

namespace Traced

variable {roll : Rolling (Source.Logged σ) α} {Done Done' : List Draw → α → Prop}
  {Failed Failed' : List Draw → DiceError → Prop}

protected theorem pure {a : α} (h : Done [] a) : Traced (pure a : Rolling (Source.Logged σ) α)
    Done Failed :=
  fun held => ⟨[], (List.append_nil held.log).symm, h⟩

protected theorem throw {e : DiceError} (h : Failed [] e) :
    Traced (throw e : Rolling (Source.Logged σ) α) Done Failed :=
  fun held => ⟨[], (List.append_nil held.log).symm, h⟩

theorem mono (h : Traced roll Done Failed) (hdone : ∀ draws a, Done draws a → Done' draws a)
    (hfailed : ∀ draws e, Failed draws e → Failed' draws e) : Traced roll Done' Failed' := by
  intro held
  have hrun := h held
  cases hend : roll.run held with
  | ok a held' =>
      rw [hend] at hrun
      obtain ⟨draws, hlog, hd⟩ := hrun
      exact ⟨draws, hlog, hdone draws a hd⟩
  | error e held' =>
      rw [hend] at hrun
      obtain ⟨draws, hlog, hf⟩ := hrun
      exact ⟨draws, hlog, hfailed draws e hf⟩

protected theorem bind {next : α → Rolling (Source.Logged σ) β}
    {DoneNext : α → List Draw → β → Prop} {FailedNext : α → List Draw → DiceError → Prop}
    (h : Traced roll Done Failed) (hnext : ∀ a, Traced (next a) (DoneNext a) (FailedNext a)) :
    Traced (roll >>= next)
      (fun draws b => ∃ first a more, draws = first ++ more ∧ Done first a ∧ DoneNext a more b)
      (fun draws e => Failed draws e ∨
        ∃ first a more, draws = first ++ more ∧ Done first a ∧ FailedNext a more e) := by
  intro held
  have hrun := h held
  rw [EStateM.run_bind]
  cases hend : roll.run held with
  | error e held' =>
      rw [hend] at hrun
      obtain ⟨draws, hlog, hf⟩ := hrun
      exact ⟨draws, hlog, .inl hf⟩
  | ok a held' =>
      rw [hend] at hrun
      obtain ⟨first, hlog, hd⟩ := hrun
      have hrun' := hnext a held'
      dsimp only
      cases hend' : (next a).run held' with
      | ok b held'' =>
          rw [hend'] at hrun'
          obtain ⟨more, hlog', hd'⟩ := hrun'
          exact ⟨first ++ more, by rw [hlog', hlog, List.append_assoc],
            first, a, more, rfl, hd, hd'⟩
      | error e held'' =>
          rw [hend'] at hrun'
          obtain ⟨more, hlog', hf'⟩ := hrun'
          exact ⟨first ++ more, by rw [hlog', hlog, List.append_assoc],
            .inr ⟨first, a, more, rfl, hd, hf'⟩⟩

theorem of_map {view : α → β} {DoneView : List Draw → β → Prop}
    (h : Traced (view <$> roll) DoneView Failed) :
    Traced roll (fun draws a => DoneView draws (view a)) Failed := by
  intro held
  have hrun := h held
  rw [map_eq_pure_bind, EStateM.run_bind] at hrun
  cases hend : roll.run held with
  | ok a held' => rw [hend] at hrun; exact hrun
  | error e held' => rw [hend] at hrun; exact hrun

theorem and_value {P : α → Prop} (h : Traced roll Done Failed)
    (hvalue : ∀ s a s', roll.run s = .ok a s' → P a) :
    Traced roll (fun draws a => Done draws a ∧ P a) Failed := by
  intro held
  have hrun := h held
  cases hend : roll.run held with
  | ok a held' =>
      rw [hend] at hrun
      obtain ⟨draws, hlog, hd⟩ := hrun
      exact ⟨draws, hlog, hd, hvalue held a held' hend⟩
  | error e held' => rw [hend] at hrun; exact hrun

end Traced

theorem draw_traced (source : Source σ) (max : Nat) :
    Traced (source.logged.draw max) (fun draws v => draws = drawsOf max [v])
      (fun draws e => draws = [⟨max, .error e⟩]) := by
  intro held
  simp only [Source.logged, EStateM.run]
  cases source.draw max held.state with
  | ok value state => exact ⟨_, rfl, rfl⟩
  | error error state => exact ⟨_, rfl, rfl⟩

/-! ## One die

The loop is described from the value on the table: with it in front, the
values drawn are those rejected and the one that stands. -/

theorem reroll_traced (source : Source σ) (condition : Condition) (sides limit value : Nat) :
    Traced (source.logged.reroll condition sides limit value)
      (fun draws v => ∃ values rejected, draws = drawsOf sides values ∧
        value :: values = rejected ++ [v] ∧ rejected.length ≤ limit ∧
        (∀ x ∈ rejected, condition.holds x = true) ∧
        (condition.holds v = true → rejected.length = limit))
      (fun draws e => ∃ values, draws = drawsOf sides values ++ [⟨sides, .error e⟩] ∧
        (value :: values).length ≤ limit ∧
        ∀ x ∈ value :: values, condition.holds x = true) := by
  induction limit generalizing value with
  | zero =>
      exact Traced.pure ⟨[], [], rfl, rfl, Nat.le_refl 0,
        fun _ hx => absurd hx List.not_mem_nil, fun _ => rfl⟩
  | succ limit ih =>
      simp only [Source.reroll]
      split
      · next hholds =>
          refine Traced.mono ((draw_traced source sides).bind ih) ?_ ?_
          · rintro draws v ⟨_, x, _, rfl, rfl, values, rejected, rfl, heq, hle, hall, hlast⟩
            exact ⟨x :: values, value :: rejected, rfl, by rw [heq]; rfl,
              Nat.succ_le_succ hle, List.forall_mem_cons.mpr ⟨hholds, hall⟩,
              fun hv => congrArg (· + 1) (hlast hv)⟩
          · rintro draws e (rfl | ⟨_, x, _, rfl, rfl, values, rfl, hle, hall⟩)
            · exact ⟨[], rfl, Nat.succ_le_succ (Nat.zero_le limit),
                List.forall_mem_singleton.mpr hholds⟩
            · exact ⟨x :: values, rfl, Nat.succ_le_succ hle,
                List.forall_mem_cons.mpr ⟨hholds, hall⟩⟩
      · next hholds =>
          exact Traced.pure ⟨[], [], rfl, rfl, Nat.zero_le _,
            fun _ hx => absurd hx List.not_mem_nil, fun h => absurd h hholds⟩

/-- A die is thrown, or its throw is broken. -/
theorem rollDie_traced (source : Source σ) (bias : Bias) {sides : Nat} (h : Rollable sides) :
    Traced (source.logged.rollDie sides bias)
      (fun draws v => ∃ throw : Throw bias,
        throw.sides = sides ∧ throw.value = v ∧ draws = throw.draws)
      (fun draws e => ∃ broken : BrokenThrow bias,
        broken.sides = sides ∧ draws = broken.draws e) := by
  rw [Source.rollDie, if_pos h]
  simp only [Source.settle]
  cases hcondition : bias.rerollCondition? sides with
  | none =>
      have hrerolls (v : Nat) : bias.rerolls sides v = false := by
        rw [Bias.rerolls, hcondition]; rfl
      have hpure (first : Nat) : Traced (pure first : Rolling (Source.Logged σ) Nat)
          (fun draws v => draws = [] ∧ v = first) (fun _ _ => False) := Traced.pure ⟨rfl, rfl⟩
      refine Traced.mono ((draw_traced source sides).bind hpure) ?_ ?_
      · rintro draws v ⟨_, first, _, rfl, rfl, rfl, rfl⟩
        exact ⟨⟨sides, [], v, h, Nat.zero_le _, fun _ hx => absurd hx List.not_mem_nil,
          fun hv => by rw [hrerolls] at hv; exact Bool.noConfusion hv⟩, rfl, rfl, rfl⟩
      · rintro draws e (rfl | ⟨_, _, _, _, _, hfalse⟩)
        · exact ⟨⟨sides, [], h, Nat.zero_le _, fun _ hx => absurd hx List.not_mem_nil⟩, rfl, rfl⟩
        · exact hfalse.elim
  | some condition =>
      have hrerolls := Bias.rerolls_of_condition hcondition
      refine Traced.mono ((draw_traced source sides).bind
        (reroll_traced source condition sides rerollLimit)) ?_ ?_
      · rintro draws v ⟨_, first, _, rfl, rfl, values, rejected, rfl, heq, hle, hall, hlast⟩
        refine ⟨⟨sides, rejected, v, h, hle, fun x hx => by rw [hrerolls]; exact hall x hx,
          fun hv => hlast (by rwa [hrerolls] at hv)⟩, rfl, rfl, ?_⟩
        rw [Throw.draws, ← heq]
        rfl
      · rintro draws e (rfl | ⟨_, first, _, rfl, rfl, values, rfl, hle, hall⟩)
        · exact ⟨⟨sides, [], h, Nat.zero_le _, fun _ hx => absurd hx List.not_mem_nil⟩, rfl, rfl⟩
        · exact ⟨⟨sides, first :: values, h, hle, fun x hx => by rw [hrerolls]; exact hall x hx⟩,
            rfl, rfl⟩

/-! ## Dice in a row -/

/-- These dice were thrown, with these values. -/
def Thrown (bias : Bias) (sides : List Nat) (draws : List Draw) (values : List Nat) : Prop :=
  ∃ throws : List (Throw bias), throws.map Throw.sides = sides ∧
    throws.map Throw.value = values ∧ draws = throws.flatMap Throw.draws

/-- The first of these dice were thrown, and the throw of the next one was
broken. -/
def BrokenOff (bias : Bias) (sides : List Nat) (draws : List Draw) (error : DiceError) : Prop :=
  ∃ (throws : List (Throw bias)) (broken : BrokenThrow bias),
    throws.map Throw.sides ++ [broken.sides] <+: sides ∧
      draws = throws.flatMap Throw.draws ++ broken.draws error

theorem rollEach_traced (source : Source σ) (bias : Bias) {sides : List Nat}
    (h : ∀ n ∈ sides, Rollable n) :
    Traced (source.logged.rollEach bias sides) (Thrown bias sides) (BrokenOff bias sides) := by
  induction sides with
  | nil => exact Traced.pure ⟨[], rfl, rfl, rfl⟩
  | cons n sides ih =>
      obtain ⟨hn, hsides⟩ := List.forall_mem_cons.mp h
      have hcons : source.logged.rollEach bias (n :: sides) =
          (source.logged.rollDie n bias >>= fun value =>
            source.logged.rollEach bias sides >>= fun values => pure (value :: values)) :=
        List.mapM_cons
      have hpure (value : Nat) (values : List Nat) :
          Traced (pure (value :: values) : Rolling (Source.Logged σ) (List Nat))
            (fun draws v => draws = [] ∧ v = value :: values) (fun _ _ => False) :=
        Traced.pure ⟨rfl, rfl⟩
      rw [hcons]
      refine Traced.mono ((rollDie_traced source bias hn).bind fun value =>
        (ih hsides).bind (hpure value)) ?_ ?_
      · rintro draws v ⟨_, _, _, rfl, ⟨throw, rfl, rfl, rfl⟩, _, _, _, rfl,
          ⟨throws, rfl, rfl, rfl⟩, rfl, rfl⟩
        exact ⟨throw :: throws, rfl, rfl, by simp⟩
      · rintro draws e (⟨broken, rfl, rfl⟩ | ⟨_, _, _, rfl, ⟨throw, rfl, rfl, rfl⟩,
          ⟨throws, broken, hfront, rfl⟩ | ⟨_, _, _, _, _, hfalse⟩⟩)
        · exact ⟨[], broken, by simp, rfl⟩
        · exact ⟨throw :: throws, broken, (List.prefix_cons_inj _).mpr hfront, by simp⟩
        · exact hfalse.elim

end DiceRoller
