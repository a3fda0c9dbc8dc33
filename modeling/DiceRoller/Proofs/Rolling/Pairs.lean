/-
# Pairs are twice as many dice

Dice that are thrown in pairs have a loop of their own, and so have dice
that are thrown in a row.  The one looks at its count beforehand and leaves
the sides to each die; the other looks at its count, at its sides and at
what the dice could total.  Still both come to the same.

| | in pairs | twice as many in a row |
| :-- | :-- | :-- |
| dice that can be rolled | two after two | one after the other (`rollPair_values`) |
| dice that cannot | the first die is refused | refused beforehand, with the same error and the same state |
| totals | of each pair one die counts, and the sum of those is checked at the end | checked beforehand; nothing is added up |

So the only thing that pairs can add is a sum that is too large, once all
dice have been thrown.  With a source that keeps to its range there is no
such sum, but a source may answer with any numbers.
-/
import DiceRoller.Proofs.Rolling.Opposites

namespace DiceRoller

variable {σ : Type}

theorem Spec.highest_of_simple {spec : Spec} {dice : Dice} (h : spec.shape = .simple dice) :
    spec.highest = dice.highest := by
  rw [highest, groups, h]
  exact Nat.add_zero dice.highest

section Pairs

open Source Engine

variable {engine : Engine σ} {spec : Spec} {dice : Dice} (hshape : spec.shape = .simple dice)
  (hcount : 1 ≤ dice.count) (hfits : 2 * dice.count * dice.sides < totalBound)
include hshape hcount hfits

/-- The values of the pairs are those of twice as many dice in a row. -/
theorem throwPairs_values (bias : Bias) :
    (fun pairs => pairs.flatMap fun pair => [pair.1, pair.2]) <$>
        engine.throwPairs spec dice bias =
      engine.source.rollMany (2 * dice.count) dice.sides bias := by
  have hzero : dice.count ≠ 0 := Nat.ne_of_gt hcount
  have htwice : 2 * dice.count ≠ 0 := Nat.mul_ne_zero (by decide) hzero
  have hsmall : ¬ totalBound ≤ spec.highest := by
    rw [Spec.highest_of_simple hshape, Dice.highest]
    rw [Nat.mul_assoc] at hfits
    omega
  rw [throwPairs, if_neg hsmall, if_neg hzero]
  by_cases hsides : Rollable dice.sides
  · have hsound : (⟨2 * dice.count, dice.sides⟩ : Dice).refusal? = none :=
      Dice.refusal?_eq_none_iff.mpr ⟨htwice, hsides⟩
    have hmany : engine.source.rollMany (2 * dice.count) dice.sides bias =
        engine.source.rollEach bias (List.replicate (2 * dice.count) dice.sides) :=
      rollMany_of_sound hsound hfits
    rw [hmany, rollPair_values]
  · have hrefused : (⟨2 * dice.count, dice.sides⟩ : Dice).refusal? =
        some (.invalidDie dice.sides) := Dice.refusal?_of_sides htwice hsides
    have hmany : engine.source.rollMany (2 * dice.count) dice.sides bias =
        throw (.invalidDie dice.sides) := rollMany_of_refused hrefused
    rw [hmany, rollPair_of_refused hzero hsides]
    rfl

theorem endState_throwPairs (bias : Bias) (s : σ) :
    endState ((engine.throwPairs spec dice bias).run s) =
      endState ((engine.source.rollMany (2 * dice.count) dice.sides bias).run s) := by
  rw [← throwPairs_values hshape hcount hfits, endState_map]

theorem rollSpec_error_of_rollMany {type : RollType} {keep : Keep}
    (hkeep : type.keep? = some keep) {bias : Bias} {s s' : σ} {error : DiceError}
    (hrun : (engine.source.rollMany (2 * dice.count) dice.sides bias).run s = .error error s') :
    (engine.rollSpec spec type bias).run s = .error error s' := by
  rw [← throwPairs_values hshape hcount hfits, run_map_eq_error_iff] at hrun
  rw [rollSpec_inPairs hshape hkeep, EStateM.run_bind, hrun]

theorem rollSpec_of_rollMany_ok {type : RollType} {keep : Keep}
    (hkeep : type.keep? = some keep) {bias : Bias} {s s' : σ} {values : List Nat}
    (hrun : (engine.source.rollMany (2 * dice.count) dice.sides bias).run s = .ok values s') :
    ∃ pairs, values = (pairs.flatMap fun pair => [pair.1, pair.2]) ∧
      (engine.rollSpec spec type bias).run s =
        (engine.countPairs spec type bias keep pairs).run s' := by
  rw [← throwPairs_values hshape hcount hfits, run_map_eq_ok_iff] at hrun
  obtain ⟨pairs, hthrow, hvalues⟩ := hrun
  refine ⟨pairs, hvalues.symm, ?_⟩
  rw [rollSpec_inPairs hshape hkeep, EStateM.run_bind, hthrow]

end Pairs

open Engine in
/-- From the same state dice thrown in pairs draw what twice as many dice in a
row draw, leave the same state and fail where those do.  Their pairs are the
values of the others, two by two.  They fail where the others do not only if
the values that count total too much. -/
theorem pairs_are_twice_as_many_dice (engine : Engine σ) (spec : Spec) {dice : Dice}
    (hshape : spec.shape = .simple dice) (hcount : 1 ≤ dice.count)
    (hfits : 2 * dice.count * dice.sides < 2 ^ 32) {type : RollType} {keep : Keep}
    (hkeep : type.keep? = some keep) (bias : Bias) (s : σ) :
    (engine.logged.rollSpec spec type bias).drawn s =
        (engine.source.logged.rollMany (2 * dice.count) dice.sides bias).drawn s ∧
      endState ((engine.rollSpec spec type bias).run s) =
        endState ((engine.source.rollMany (2 * dice.count) dice.sides bias).run s) ∧
      (∀ error s',
        (engine.source.rollMany (2 * dice.count) dice.sides bias).run s = .error error s' →
          (engine.rollSpec spec type bias).run s = .error error s') ∧
      ∀ values s',
        (engine.source.rollMany (2 * dice.count) dice.sides bias).run s = .ok values s' →
          ∃ pairs, values = (pairs.flatMap fun pair => [pair.1, pair.2]) ∧
            (total (pairs.map keep.pick) < 2 ^ 32 →
              ∃ outcome, (engine.rollSpec spec type bias).run s = .ok outcome s' ∧
                outcome.rolls = .paired pairs) ∧
            (2 ^ 32 ≤ total (pairs.map keep.pick) →
              (engine.rollSpec spec type bias).run s = .error .overflow s') := by
  refine ⟨?_, ?_, ?_, ?_⟩
  · rw [Rolling.drawn_eq_log, Rolling.drawn_eq_log, endState_rollSpec_inPairs hshape hkeep,
      endState_throwPairs hshape hcount hfits]
    rfl
  · rw [endState_rollSpec_inPairs hshape hkeep, endState_throwPairs hshape hcount hfits]
  · intro error s' hrun
    exact rollSpec_error_of_rollMany hshape hcount hfits hkeep hrun
  · intro values s' hrun
    obtain ⟨pairs, hvalues, hcounted⟩ :=
      rollSpec_of_rollMany_ok hshape hcount hfits hkeep hrun
    refine ⟨pairs, hvalues, ?_, ?_⟩
    · intro hsmall
      rw [hcounted, countPairs_of_lt hsmall]
      exact ⟨_, rfl, rfl⟩
    · intro hlarge
      rw [hcounted, countPairs_of_le hlarge]
      rfl

/-- Two pairs of unlucky dice and four such dice, of which two are rolled
again.  With values that no die shows only the pairs total too much.  A list
that comes to its end does so for both. -/
theorem pairs_are_twice_as_many_dice_two_pairs :
    (∃ pairs : List (Nat × Nat),
      [2, 3, 1, 3] = (pairs.flatMap fun pair => [pair.1, pair.2]) ∧
      (total (pairs.map Keep.higher.pick) < 2 ^ 32 →
        ∃ outcome,
          (Engine.rollSpec ⟨.listed, default⟩ twoDice .advantage .unlucky).run
            [6, 2, 3, 1, 4, 3] = .ok outcome [] ∧ outcome.rolls = .paired pairs)) ∧
    (∃ pairs : List (Nat × Nat),
      [4294967290, 7, 3, 6] = (pairs.flatMap fun pair => [pair.1, pair.2]) ∧
      (2 ^ 32 ≤ total (pairs.map Keep.higher.pick) →
        (Engine.rollSpec ⟨.listed, default⟩ twoDice .advantage .fair).run
          [4294967290, 7, 3, 6] = .error .overflow [])) ∧
    (Engine.rollSpec ⟨.listed, default⟩ twoDice .disadvantage .fair).run [5, 2, 3] =
      .error .exhausted [] := by
  have hhigher : RollType.advantage.keep? = some Keep.higher := rfl
  have hlower : RollType.disadvantage.keep? = some Keep.lower := rfl
  refine ⟨?_, ?_, ?_⟩
  · obtain ⟨pairs, hvalues, hok, -⟩ :=
      (pairs_are_twice_as_many_dice ⟨.listed, default⟩ twoDice rfl (by decide) (by decide)
        hhigher .unlucky [6, 2, 3, 1, 4, 3]).2.2.2 _ _ rfl
    exact ⟨pairs, hvalues, hok⟩
  · obtain ⟨pairs, hvalues, -, hoverflow⟩ :=
      (pairs_are_twice_as_many_dice ⟨.listed, default⟩ twoDice rfl (by decide) (by decide)
        hhigher .fair [4294967290, 7, 3, 6]).2.2.2 _ _ rfl
    exact ⟨pairs, hvalues, hoverflow⟩
  · exact (pairs_are_twice_as_many_dice ⟨.listed, default⟩ twoDice rfl (by decide) (by decide)
      hlower .fair [5, 2, 3]).2.2.1 _ _ rfl

end DiceRoller
