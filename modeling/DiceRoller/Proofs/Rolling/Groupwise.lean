/-
# Groups that are added up are rolled one by one

A complex spec and its groups by themselves go through different branches:
the one adds up all values at once and writes one account of them, the
others each have their own total, their own check of it and their own
account.  They come to the same.

| | |
| :-- | :-- |
| the values | both roll the same groups one after the other, so they end alike, down to the failure and the state it leaves |
| the totals | of an honest source no total can be too large if the dice could not total too much, so no check after the roll fails (`rollSpec_eq_record`) |
| the accounts | the account of several groups is made of those of each of them |

The roll type that is asked for is written down and has no other effect on
a complex spec.
-/
import Mathlib.Algebra.Ring.Int.Defs
import DiceRoller.Proofs.Rolling.Verdict

namespace DiceRoller

variable {σ : Type}

/-! ## One group by itself -/

/-- The roll of one group and nothing else. -/
def Dice.alone (dice : Dice) (format : String) : Spec :=
  ⟨.simple dice, 0, format⟩

namespace Engine

variable (engine : Engine σ) (formats : Dice → String) (bias : Bias)

def rollOneByOne (groups : List Dice) : Rolling σ (List Outcome) :=
  groups.mapM fun dice => engine.rollSpec (dice.alone (formats dice)) .normal bias

def recordAlone (rolled : Rolled) : Outcome :=
  engine.record (rolled.dice.alone (formats rolled.dice)) .normal bias (.single rolled.values)
    (total rolled.values)

end Engine

section OneByOne

variable {engine : Engine σ} (hsource : engine.source.Honest) (formats : Dice → String)
  (bias : Bias)
include hsource

theorem rollSpec_alone {dice : Dice} (hfits : dice.highest < totalBound) :
    engine.rollSpec (dice.alone (formats dice)) .normal bias =
      engine.recordAlone formats bias <$> engine.source.rollDice dice bias := by
  have hhighest : (dice.alone (formats dice)).highest < totalBound := hfits
  rw [rollSpec_eq_record hsource hhighest]
  simp only [Dice.alone, rollShape_simple, RollType.keep?, Source.rollDice, map_bind, map_pure]
  rfl

/-- One after the other, the groups are rolled just as they are when they
are added up. -/
theorem rollOneByOne_eq {groups : List Dice}
    (hfits : ∀ dice ∈ groups, dice.highest < totalBound) :
    engine.rollOneByOne formats bias groups =
      List.map (engine.recordAlone formats bias) <$>
        groups.mapM fun dice => engine.source.rollDice dice bias := by
  induction groups with
  | nil => rfl
  | cons dice groups ih =>
      obtain ⟨hdice, hgroups⟩ := List.forall_mem_cons.mp hfits
      have hfirst := rollSpec_alone hsource formats bias hdice
      rw [Engine.rollOneByOne] at ih ⊢
      rw [List.mapM_cons, ih hgroups, hfirst, List.mapM_cons]
      simp only [bind_map_left, map_bind, map_pure, List.map_cons]

end OneByOne

/-! ## All groups at once -/

theorem rollSpec_complex_eq {engine : Engine σ} (hsource : engine.source.Honest)
    {groups : List Dice} (hfits : total (groups.map Dice.highest) < totalBound) (modifier : Int)
    (format : String) (type : RollType) (bias : Bias) :
    engine.rollSpec ⟨.complex groups, modifier, format⟩ type bias =
      (fun rolled => engine.record ⟨.complex groups, modifier, format⟩ type bias
        (.inGroups rolled) (total (rolled.flatMap Rolled.values))) <$>
        groups.mapM fun dice => engine.source.rollDice dice bias := by
  have hhighest : (⟨.complex groups, modifier, format⟩ : Spec).highest < totalBound := hfits
  rw [rollSpec_eq_record hsource hhighest]
  simp only [rollShape_complex, map_bind, map_pure]
  rfl

theorem mapM_rollDice_dice {source : Source σ} {bias : Bias} {groups : List Dice} {s s' : σ}
    {rolled : List Rolled}
    (h : (groups.mapM fun dice => source.rollDice dice bias).run s = .ok rolled s') :
    rolled.map Rolled.dice = groups := by
  have hall : List.Forall₂ (fun dice r => r.IsOf dice) groups rolled :=
    forall₂_of_mapM_ok (fun _ _ _ _ => rollDice_isOf) h
  have hdice : List.Forall₂ (fun r dice => r.dice = dice) rolled groups :=
    hall.flip.imp fun _ _ hof => hof.1
  rwa [← List.forall₂_map_left_iff, List.forall₂_eq_eq_eq] at hdice

section AllAtOnce

variable (engine : Engine σ) (formats : Dice → String) (bias : Bias) (rolled : List Rolled)

theorem sum_final_recordAlone :
    ((rolled.map (engine.recordAlone formats bias)).map Outcome.final).sum =
      (total (rolled.flatMap Rolled.values) : Int) := by
  induction rolled with
  | nil => rfl
  | cons r rolled ih =>
      have hfirst : (engine.recordAlone formats bias r).final = (total r.values : Int) :=
        Int.add_zero _
      rw [List.map_cons, List.map_cons, List.sum_cons, ih, hfirst, List.flatMap_cons,
        total_append, Int.natCast_add]

theorem account_inGroups_eq :
    (Hand.inGroups rolled).account =
      " + ".intercalate (List.zipWith
        (fun (dice : Dice) (outcome : Outcome) => toString dice ++ ":" ++ outcome.explanation)
        (rolled.map Rolled.dice) (rolled.map (engine.recordAlone formats bias))) := by
  have haccount (r : Rolled) :
      (engine.recordAlone formats bias r).explanation = bracketed r.values :=
    String.append_empty
  simp only [List.zipWith_map, List.zipWith_self, haccount]
  rfl

end AllAtOnce

/-- The roll type of a complex spec is written down and nothing else. -/
theorem rollSpec_complex_type (engine : Engine σ) (groups : List Dice) (modifier : Int)
    (format : String) (type type' : RollType) (bias : Bias) :
    engine.rollSpec ⟨.complex groups, modifier, format⟩ type' bias =
      (fun outcome => { outcome with rollType := type' }) <$>
        engine.rollSpec ⟨.complex groups, modifier, format⟩ type bias := by
  simp only [Engine.rollSpec]
  split
  · rfl
  · rw [map_bind]
    refine bind_congr fun hand => ?_
    cases total? hand.selected with
    | some total => rfl
    | none => rfl

/-- With an honest source whose values cannot total too much, groups that
are added up are rolled as one after the other by itself: they fail alike,
and else they show the same values, with the results and the accounts put
together. -/
theorem complex_rolls_group_by_group (engine : Engine σ) (hsource : engine.source.Honest)
    (groups : List Dice) (hfits : total (groups.map Dice.highest) < 2 ^ 32) (modifier : Int)
    (format : String) (formats : Dice → String) (type : RollType) (bias : Bias) (s : σ) :
    (∀ error s', (engine.rollOneByOne formats bias groups).run s = .error error s' →
      (engine.rollSpec ⟨.complex groups, modifier, format⟩ type bias).run s =
        .error error s') ∧
    (∀ outcomes s', (engine.rollOneByOne formats bias groups).run s = .ok outcomes s' →
      outcomes.length = groups.length ∧
      ∃ outcome,
        (engine.rollSpec ⟨.complex groups, modifier, format⟩ type bias).run s =
          .ok outcome s' ∧
        outcome.rolls = .flat (outcomes.flatMap fun alone => alone.rolls.values) ∧
        outcome.final = (outcomes.map Outcome.final).sum + modifier ∧
        outcome.explanation =
          " + ".intercalate (List.zipWith
            (fun (dice : Dice) (alone : Outcome) => toString dice ++ ":" ++ alone.explanation)
            groups outcomes) ++ modifierSuffix modifier) ∧
    ∀ type', engine.rollSpec ⟨.complex groups, modifier, format⟩ type' bias =
      (fun outcome => { outcome with rollType := type' }) <$>
        engine.rollSpec ⟨.complex groups, modifier, format⟩ type bias := by
  have hhighest : (⟨.complex groups, modifier, format⟩ : Spec).highest < totalBound := hfits
  have hgroups : ∀ dice ∈ groups, dice.highest < totalBound := Spec.highest_lt_of_mem hhighest
  rw [rollOneByOne_eq hsource formats bias hgroups]
  refine ⟨?_, ?_, fun type' => rollSpec_complex_type engine groups modifier format type type' bias⟩
  · intro error s' hone
    rw [rollSpec_complex_eq hsource hfits, run_map_eq_error_iff]
    exact run_map_eq_error_iff.mp hone
  · intro outcomes s' hone
    obtain ⟨rolled, hrolled, rfl⟩ := run_map_eq_ok_iff.mp hone
    have hdice := mapM_rollDice_dice hrolled
    refine ⟨by simp [← hdice],
      engine.record ⟨.complex groups, modifier, format⟩ type bias (.inGroups rolled)
        (total (rolled.flatMap Rolled.values)), ?_, ?_, ?_, ?_⟩
    · rw [rollSpec_complex_eq hsource hfits]
      exact run_map_eq_ok_iff.mpr ⟨rolled, hrolled, rfl⟩
    · rw [List.flatMap_map]
      rfl
    · rw [sum_final_recordAlone]
      rfl
    · rw [← hdice, ← account_inGroups_eq]
      rfl

/-- Two groups, with enough bytes for both of them, and with too few. -/
theorem complex_rolls_group_by_group_two_groups :
    Source.Honest Source.bytes ∧ total ([⟨2, 6⟩, ⟨1, 4⟩].map Dice.highest) < 2 ^ 32 ∧
    (∃ outcome,
      (Engine.rollSpec ⟨.bytes, default⟩ ⟨.complex [⟨2, 6⟩, ⟨1, 4⟩], -2, "2d6+1d4-2"⟩
          .advantage .fair).run [5, 255, 3, 2, 9] = .ok outcome [9] ∧
        outcome.rolls = .flat [6, 4, 3] ∧ outcome.final = 10 + 3 + -2 ∧
        outcome.explanation =
          " + ".intercalate ["2d6" ++ ":" ++ "[6, 4]", "1d4" ++ ":" ++ "[3]"] ++ " -2") ∧
    (Engine.rollSpec ⟨.bytes, default⟩ ⟨.complex [⟨2, 6⟩, ⟨1, 4⟩], -2, "2d6+1d4-2"⟩
        .advantage .fair).run [5, 255, 3] = .error (.entropy "unexpected situation") [] := by
  have hfits : total ([⟨2, 6⟩, ⟨1, 4⟩].map Dice.highest) < 2 ^ 32 := by decide
  have hroll := complex_rolls_group_by_group ⟨.bytes, default⟩ bytes_honest
    [⟨2, 6⟩, ⟨1, 4⟩] hfits (-2) "2d6+1d4-2" toString .advantage .fair
  obtain ⟨-, hok, -⟩ := hroll [5, 255, 3, 2, 9]
  obtain ⟨herror, -, -⟩ := hroll [5, 255, 3]
  exact ⟨bytes_honest, hfits, (hok _ _ rfl).2, herror _ _ rfl⟩

end DiceRoller
