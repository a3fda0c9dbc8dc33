/-
# Advantage and disadvantage

A single group is thrown in pairs with either of them, and nothing that is
drawn depends on which.  The two part only when the pairs lie on the table:
one keeps the higher die of each pair, the other the lower.

    rollSpec  =  throwPairs >>= countPairs keep
                 ----------     ---------------
                 all draws      none, and the state stays

So the same pairs lie on both tables.  Whoever keeps the lower dice never
totals more, and may get through where the higher dice overflow, but not
the other way round.
-/
import DiceRoller.Proofs.Rolling.Selection

namespace DiceRoller

variable {ε σ α β : Type}

/-! ## Pairs -/

/-- The same two values, the higher one first. -/
def Parted (pair shown : Nat × Nat) : Prop :=
  (shown = pair ∨ shown = pair.swap) ∧ shown.2 ≤ shown.1

theorem parted_picks (pair : Nat × Nat) :
    Parted pair (Keep.higher.pick pair, Keep.lower.pick pair) := by
  obtain ⟨first, second⟩ := pair
  rcases Nat.le_total first second with hle | hle
  · refine ⟨.inr ?_, ?_⟩
    · simp only [Keep.pick, Nat.max_eq_right hle, Nat.min_eq_left hle, Prod.swap_prod_mk]
    · simp only [Keep.pick, Nat.max_eq_right hle, Nat.min_eq_left hle, hle]
  · refine ⟨.inl ?_, ?_⟩
    · simp only [Keep.pick, Nat.max_eq_left hle, Nat.min_eq_right hle]
    · simp only [Keep.pick, Nat.max_eq_left hle, Nat.min_eq_right hle, hle]

theorem Parted.sum_eq {pair shown : Nat × Nat} (h : Parted pair shown) :
    shown.1 + shown.2 = pair.1 + pair.2 := by
  obtain ⟨rfl | rfl, _⟩ := h
  · rfl
  · exact Nat.add_comm pair.2 pair.1

theorem forall₂_parted (pairs : List (Nat × Nat)) :
    List.Forall₂ Parted pairs ((pairs.map Keep.higher.pick).zip (pairs.map Keep.lower.pick)) := by
  rw [List.zip_map', List.forall₂_map_right_iff, List.forall₂_same]
  intro pair _
  exact parted_picks pair

theorem total_lower_le (pairs : List (Nat × Nat)) :
    total (pairs.map Keep.lower.pick) ≤ total (pairs.map Keep.higher.pick) :=
  List.sum_le_sum fun pair _ => (parted_picks pair).2

theorem total_higher_add_lower (pairs : List (Nat × Nat)) :
    total (pairs.map Keep.higher.pick) + total (pairs.map Keep.lower.pick) =
      total (Rolls.paired pairs).values := by
  induction pairs with
  | nil => rfl
  | cons pair pairs ih =>
      have hpair : Keep.higher.pick pair + Keep.lower.pick pair = pair.1 + pair.2 :=
        (parted_picks pair).sum_eq
      have hvalues : total (Rolls.paired (pair :: pairs)).values =
          pair.1 + (pair.2 + total (Rolls.paired pairs).values) := rfl
      rw [List.map_cons, List.map_cons, total_cons, total_cons, hvalues, ← ih]
      omega

/-! ## Rolls that end in the same state -/

theorem endState_bind (roll : EStateM ε σ α) {next : α → EStateM ε σ β}
    (h : ∀ a s, endState ((next a).run s) = s) (s : σ) :
    endState ((roll >>= next).run s) = endState (roll.run s) := by
  rw [EStateM.run_bind]
  cases roll.run s with
  | ok a t => exact h a t
  | error error t => rfl

theorem endState_map (view : α → β) (roll : EStateM ε σ α) (s : σ) :
    endState ((view <$> roll).run s) = endState (roll.run s) := by
  rw [map_eq_pure_bind]
  exact endState_bind roll (fun _ _ => rfl) s

theorem Rolling.drawn_eq_log (roll : Rolling (Source.Logged σ) α) (s : σ) :
    roll.drawn s = (endState (roll.run ⟨s, []⟩)).log := by
  rw [drawn]
  cases roll.run ⟨s, []⟩ with
  | ok a held => rfl
  | error error held => rfl

theorem Rolling.drawn_map (view : α → β) (roll : Rolling (Source.Logged σ) α) (s : σ) :
    (view <$> roll).drawn s = roll.drawn s := by
  rw [drawn_eq_log, drawn_eq_log, endState_map]

/-! ## Throwing and counting -/

namespace Engine

variable (engine : Engine σ)

def throwPairs (spec : Spec) (dice : Dice) (bias : Bias) : Rolling σ (List (Nat × Nat)) :=
  if totalBound ≤ spec.highest then throw .overflow
  else if dice.count = 0 then throw .invalidCount
  else Rolling.times dice.count (engine.source.rollPair dice.sides bias)

def countPairs (spec : Spec) (type : RollType) (bias : Bias) (keep : Keep)
    (pairs : List (Nat × Nat)) : Rolling σ Outcome :=
  match total? (pairs.map keep.pick) with
  | some sum => pure (engine.record spec type bias (.inPairs keep pairs) sum)
  | none => throw .overflow

variable {engine} {spec : Spec} {type : RollType} {bias : Bias} {keep : Keep}

theorem rollSpec_inPairs {dice : Dice} (hshape : spec.shape = .simple dice)
    (hkeep : type.keep? = some keep) : engine.rollSpec spec type bias =
      engine.throwPairs spec dice bias >>= engine.countPairs spec type bias keep := by
  rw [rollSpec, throwPairs]
  split
  · rfl
  · simp only [hshape, rollShape_simple, hkeep]
    split
    · rfl
    · rw [bind_assoc]
      exact bind_congr fun pairs => pure_bind _ _

theorem countPairs_of_lt {pairs : List (Nat × Nat)}
    (h : total (pairs.map keep.pick) < totalBound) : engine.countPairs spec type bias keep pairs =
      pure (engine.record spec type bias (.inPairs keep pairs) (total (pairs.map keep.pick))) := by
  rw [countPairs, total?_of_lt h]

theorem countPairs_of_le {pairs : List (Nat × Nat)}
    (h : totalBound ≤ total (pairs.map keep.pick)) :
    engine.countPairs spec type bias keep pairs = throw .overflow := by
  rw [countPairs, total?_of_le h]

theorem endState_countPairs (pairs : List (Nat × Nat)) (s : σ) :
    endState ((engine.countPairs spec type bias keep pairs).run s) = s := by
  rw [countPairs]
  cases total? (pairs.map keep.pick) with
  | some sum => rfl
  | none => rfl

theorem endState_rollSpec_inPairs {dice : Dice} (hshape : spec.shape = .simple dice)
    (hkeep : type.keep? = some keep) (s : σ) :
    endState ((engine.rollSpec spec type bias).run s) =
      endState ((engine.throwPairs spec dice bias).run s) := by
  rw [rollSpec_inPairs hshape hkeep]
  exact endState_bind (engine.throwPairs spec dice bias) endState_countPairs s

end Engine

/-! ## The two rolls -/

section Opposites

open Engine

variable {engine : Engine σ} {spec : Spec} {dice : Dice} {bias : Bias} {s s' : σ}

/-- Where disadvantage fails, so does advantage. -/
theorem advantage_error (hshape : spec.shape = .simple dice) {error : DiceError}
    (hrun : (engine.rollSpec spec .disadvantage bias).run s = .error error s') :
    (engine.rollSpec spec .advantage bias).run s = .error error s' := by
  rw [rollSpec_inPairs hshape rfl, EStateM.run_bind] at hrun ⊢
  cases hthrow : (engine.throwPairs spec dice bias).run s with
  | error error' t =>
      rw [hthrow] at hrun
      exact hrun
  | ok pairs t =>
      rw [hthrow] at hrun
      dsimp only at hrun ⊢
      rcases Nat.lt_or_ge (total (pairs.map Keep.lower.pick)) totalBound with hlow | hlow
      · rw [countPairs_of_lt hlow] at hrun
        exact nomatch hrun
      · rw [countPairs_of_le hlow] at hrun
        rw [countPairs_of_le (Nat.le_trans hlow (total_lower_le pairs))]
        exact hrun

/-- Where advantage succeeds, so does disadvantage, with the same pairs. -/
theorem advantage_ok (hshape : spec.shape = .simple dice) {high : Outcome}
    (hrun : (engine.rollSpec spec .advantage bias).run s = .ok high s') :
    ∃ pairs,
      high = engine.record spec .advantage bias (.inPairs .higher pairs)
        (total (pairs.map Keep.higher.pick)) ∧
      (engine.rollSpec spec .disadvantage bias).run s =
        .ok (engine.record spec .disadvantage bias (.inPairs .lower pairs)
          (total (pairs.map Keep.lower.pick))) s' := by
  rw [rollSpec_inPairs hshape rfl] at hrun ⊢
  obtain ⟨pairs, t, hthrow, hcount⟩ := run_bind_eq_ok hrun
  rcases Nat.lt_or_ge (total (pairs.map Keep.higher.pick)) totalBound with hhigh | hhigh
  · rw [countPairs_of_lt hhigh] at hcount
    cases hcount
    refine ⟨pairs, rfl, ?_⟩
    rw [EStateM.run_bind, hthrow]
    dsimp only
    rw [countPairs_of_lt (Nat.lt_of_le_of_lt (total_lower_le pairs) hhigh)]
    rfl
  · rw [countPairs_of_le hhigh] at hcount
    exact nomatch hcount

/-- From the same state advantage and disadvantage draw the same and leave
the same state.  What fails with disadvantage fails with advantage too.
What succeeds with advantage succeeds with disadvantage, with the same
pairs; of each pair one keeps the higher value and the other the lower. -/
theorem rollSpec_opposites (engine : Engine σ) (spec : Spec) (hshape : spec.shape = .simple dice)
    (bias : Bias) (s : σ) :
    (engine.logged.rollSpec spec .advantage bias).drawn s =
        (engine.logged.rollSpec spec .disadvantage bias).drawn s ∧
      endState ((engine.rollSpec spec .advantage bias).run s) =
        endState ((engine.rollSpec spec .disadvantage bias).run s) ∧
      (∀ error s', (engine.rollSpec spec .disadvantage bias).run s = .error error s' →
        (engine.rollSpec spec .advantage bias).run s = .error error s') ∧
      ∀ high s', (engine.rollSpec spec .advantage bias).run s = .ok high s' →
        ∃ low pairs, (engine.rollSpec spec .disadvantage bias).run s = .ok low s' ∧
          high.rolls = .paired pairs ∧ low.rolls = .paired pairs ∧
          high.selected.length = pairs.length ∧ low.selected.length = pairs.length ∧
          List.Forall₂ Parted pairs (high.selected.zip low.selected) ∧
          low.final ≤ high.final ∧
          high.final + low.final = total (Rolls.paired pairs).values + 2 * spec.modifier := by
  refine ⟨?_, ?_, fun error s' => advantage_error hshape, ?_⟩
  · rw [Rolling.drawn_eq_log, Rolling.drawn_eq_log, endState_rollSpec_inPairs hshape rfl,
      endState_rollSpec_inPairs hshape rfl]
  · rw [endState_rollSpec_inPairs hshape rfl, endState_rollSpec_inPairs hshape rfl]
  · intro high s' hrun
    obtain ⟨pairs, rfl, hlow⟩ := advantage_ok hshape hrun
    refine ⟨_, pairs, hlow, rfl, rfl, List.length_map _, List.length_map _, forall₂_parted pairs,
      ?_, ?_⟩
    · have hle := total_lower_le pairs
      simp only [record]
      omega
    · simp only [record, ← total_higher_add_lower]
      omega

/-- Of two pairs of unlucky dice two dice are rolled again.  Of two fair
pairs the higher dice total one too many and the lower ones do not.  A list
that comes to its end does so for either. -/
theorem rollSpec_opposites_two_dice :
    (∃ high low pairs,
      (Engine.rollSpec ⟨.listed, default⟩ twoDice .advantage .unlucky).run [6, 2, 3, 1, 4, 3] =
        .ok high [] ∧
      (Engine.rollSpec ⟨.listed, default⟩ twoDice .disadvantage .unlucky).run
        [6, 2, 3, 1, 4, 3] = .ok low [] ∧
      high.rolls = .paired pairs ∧ low.rolls = .paired pairs ∧ high.selected = [3, 3] ∧
      List.Forall₂ Parted pairs (high.selected.zip low.selected)) ∧
    (∃ low,
      (Engine.rollSpec ⟨.listed, default⟩ twoDice .disadvantage .fair).run
        [4294967290, 7, 3, 6] = .ok low [] ∧
      (Engine.rollSpec ⟨.listed, default⟩ twoDice .advantage .fair).run [4294967290, 7, 3, 6] =
        .error .overflow []) ∧
    (Engine.rollSpec ⟨.listed, default⟩ twoDice .advantage .fair).run [5, 2, 3] =
      .error .exhausted [] := by
  refine ⟨?_, ⟨_, rfl, rfl⟩, ?_⟩
  · obtain ⟨low, pairs, hlow, hhighrolls, hlowrolls, _, _, hparted, _⟩ :=
      (rollSpec_opposites ⟨.listed, default⟩ twoDice rfl .unlucky [6, 2, 3, 1, 4, 3]).2.2.2 _ _ rfl
    exact ⟨_, low, pairs, rfl, hlow, hhighrolls, hlowrolls, rfl, hparted⟩
  · exact (rollSpec_opposites ⟨.listed, default⟩ twoDice rfl .fair [5, 2, 3]).2.2.1 _ _ rfl

end Opposites

end DiceRoller
