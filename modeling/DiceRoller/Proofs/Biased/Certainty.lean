/-
# Small biased dice leave nothing to chance

A lucky die with two or three sides is content with its highest face only,
and an unlucky one with a one.  So it shows that face, unless it misses it
with every draw it may have.  Two sources may give very different values
before that, and differently many of them; none of this is to be seen in the
outcome.

| | |
| :-- | :-- |
| what an outcome holds | of a source nothing but the raw values and whether it is secure (`outcome_eq_of_values_eq`), since the values and the spec say how the dice lie (`Hand.Dealt`) |
| what the raw values are | the favourite face of each die, if none missed it throughout (`Thrown.eq_favourite`) |
| what counts of them | the same, since the favourite of a die is the same at every throw (`Selection.eq_map`) |

What is drawn does depend on chance, and so does the state that is left.
-/
import DiceRoller.Proofs.Rolling.Bounds

namespace DiceRoller

variable {σ τ : Type}

/-! ## Hands are known by their values -/

theorem rolled_eq_of_values_eq {groups : List Dice} {rolled rolled' : List Rolled}
    (h : List.Forall₂ (fun dice r => r.IsOf dice) groups rolled)
    (h' : List.Forall₂ (fun dice r => r.IsOf dice) groups rolled')
    (hvalues : rolled.flatMap Rolled.values = rolled'.flatMap Rolled.values) :
    rolled = rolled' := by
  induction h generalizing rolled' with
  | nil =>
      cases h'
      rfl
  | @cons dice r groups rolled hr _ ih =>
      cases h' with
      | @cons _ r' _ rolled' hr' hrolled' =>
          rw [List.flatMap_cons, List.flatMap_cons] at hvalues
          obtain ⟨hfirst, hrest⟩ := List.append_inj hvalues (hr.2.trans hr'.2.symm)
          have heq : r = r' := by
            cases r
            cases r'
            cases hfirst
            cases hr.1.trans hr'.1.symm
            rfl
          rw [heq, ih hrolled' hrest]

namespace Hand

theorem Dealt.eq_of_values_eq {type : RollType} {shape : Shape} {hand hand' : Hand}
    (h : Dealt type shape hand) (h' : Dealt type shape hand')
    (hvalues : hand.rolls.values = hand'.rolls.values) : hand = hand' := by
  cases h with
  | single hkeep =>
      cases h' with
      | single => exact congrArg Hand.single hvalues
      | inPairs hkeep' => exact nomatch hkeep.symm.trans hkeep'
  | inPairs hkeep =>
      cases h' with
      | single hkeep' => exact nomatch hkeep.symm.trans hkeep'
      | @inPairs _ _ pairs' hkeep' =>
          cases hkeep.symm.trans hkeep'
          have hpairs := congrArg inTwos hvalues
          rw [rolls, inTwos_values, rolls, inTwos_values] at hpairs
          rw [hpairs]
  | inGroups hrolled =>
      cases h' with
      | inGroups hrolled' =>
          exact congrArg Hand.inGroups (rolled_eq_of_values_eq hrolled hrolled' hvalues)

end Hand

/-- An outcome tells of its source the raw values and whether it is secure,
and nothing else. -/
theorem outcome_eq_of_values_eq {engine : Engine σ} {engine' : Engine τ}
    (hsecure : engine.source.secure = engine'.source.secure) {spec : Spec} {type : RollType}
    {bias : Bias} {s s' : σ} {t t' : τ} {outcome outcome' : Outcome}
    (hrun : (engine.rollSpec spec type bias).run s = .ok outcome s')
    (hrun' : (engine'.rollSpec spec type bias).run t = .ok outcome' t')
    (hvalues : outcome.rolls.values = outcome'.rolls.values) : outcome = outcome' := by
  obtain ⟨hand, hshape, -, rfl⟩ := rollSpec_eq_ok hrun
  obtain ⟨hand', hshape', -, rfl⟩ := rollSpec_eq_ok hrun'
  have hhand : hand = hand' :=
    (rollShape_dealt hshape).eq_of_values_eq (rollShape_dealt hshape') hvalues
  subst hhand
  simp only [Engine.record, hsecure]

/-! ## Favourite faces -/

namespace Bias

/-- The face that a bias is after: the highest one, or a one. -/
def favourite (bias : Bias) (sides : Nat) : Nat :=
  if bias = lucky then sides else 1

/-- With three sides or fewer a biased die is content with nothing else. -/
theorem eq_favourite_of_kept {bias : Bias} (hbias : bias ≠ .fair) {sides value : Nat}
    (hsides : sides ≤ 3) (hface : IsFace sides value) (hkept : bias.rerolls sides value = false) :
    value = bias.favourite sides := by
  obtain ⟨hlow, hhigh⟩ := hface
  cases bias with
  | fair => exact absurd rfl hbias
  | lucky =>
      have hle : luckyThreshold sides ≤ value := Nat.not_lt.mp (of_decide_eq_false hkept)
      rw [luckyThreshold_of_le_three hsides] at hle
      exact Nat.le_antisymm hhigh hle
  | unlucky =>
      have hle : value ≤ unluckyThreshold sides := Nat.not_lt.mp (of_decide_eq_false hkept)
      rw [unluckyThreshold_of_le_three (hlow.trans hhigh) hsides] at hle
      exact Nat.le_antisymm hle hlow

end Bias

/-! ## Dice that miss -/

/-- All values that a die was given, as many as it may have, are such as its
bias rolls again. -/
def Throw.Missed {bias : Bias} (throw : Throw bias) : Prop :=
  throw.draws.length = rerollLimit + 1 ∧
    ∀ value ∈ throw.rejected ++ [throw.value], bias.rerolls throw.sides value = true

theorem Throw.missed_of_rerolls {bias : Bias} {throw : Throw bias}
    (h : bias.rerolls throw.sides throw.value = true) : throw.Missed := by
  refine ⟨?_, ?_⟩
  · rw [throw.length_draws, throw.length_of_rerolls h]
  · intro value hvalue
    rcases List.mem_append.mp hvalue with hrejected | hlast
    · exact throw.rerolls_of_mem value hrejected
    · rwa [List.mem_singleton.mp hlast]

/-- These draws are those of dice with so many sides, and one of the dice
missed with all of its draws. -/
def SomeMissed (bias : Bias) (sides : List Nat) (draws : List Draw) : Prop :=
  ∃ throws : List (Throw bias), throws.map Throw.sides = sides ∧
    draws = throws.flatMap Throw.draws ∧ ∃ throw ∈ throws, throw.Missed

theorem SomeMissed.length_le {bias : Bias} {sides : List Nat} {draws : List Draw}
    (h : SomeMissed bias sides draws) : rerollLimit + 1 ≤ draws.length := by
  obtain ⟨throws, -, rfl, throw, hthrow, hlength, -⟩ := h
  rw [← hlength]
  exact (List.sublist_flatten_of_mem (List.mem_map_of_mem hthrow)).length_le

theorem Thrown.eq_favourite {source : Source σ} (hsource : source.Honest) {bias : Bias}
    (hbias : bias ≠ .fair) {sides values : List Nat} (hsides : ∀ n ∈ sides, n ≤ 3)
    {draws : List Draw} {s s' : σ} (hthrown : Thrown bias sides draws values)
    (hgave : source.Gave s draws s') (hmissed : ¬ SomeMissed bias sides draws) :
    values = sides.map bias.favourite := by
  obtain ⟨throws, rfl, rfl, rfl⟩ := hthrown
  rw [List.map_map]
  refine List.map_congr_left fun throw hthrow => ?_
  have hkept : bias.rerolls throw.sides throw.value = false := by
    refine Bool.eq_false_iff.mpr fun h => hmissed ?_
    exact ⟨throws, rfl, rfl, throw, hthrow, Throw.missed_of_rerolls h⟩
  exact Bias.eq_favourite_of_kept hbias (hsides _ (List.mem_map_of_mem hthrow))
    (Throw.value_range hsource hgave hthrow) hkept

/-! ## Rolls -/

/-- If no die misses throughout, each shows the favourite of its bias. -/
theorem rollSpec_favourite {engine : Engine σ} (hsource : engine.source.InRange) {spec : Spec}
    (hfits : spec.highest < totalBound) (hsound : ∀ d ∈ spec.groups, d.refusal? = none)
    (hsides : ∀ d ∈ spec.groups, d.sides ≤ 3) (type : RollType) {bias : Bias}
    (hbias : bias ≠ .fair) {s : σ}
    (hmissed : ¬ SomeMissed bias (spec.shape.sides type)
      ((engine.logged.rollSpec spec type bias).drawn s)) :
    ∃ outcome s', (engine.rollSpec spec type bias).run s = .ok outcome s' ∧
      outcome.rolls.values = (spec.shape.sides type).map bias.favourite ∧
      outcome.selected = (sidesOf 1 spec.groups).map bias.favourite := by
  obtain ⟨outcome, s', hrun⟩ :
      ∃ outcome s', (engine.rollSpec spec type bias).run s = .ok outcome s' :=
    ok_of_sound hsource hfits hsound
  obtain ⟨hrolled, hgave⟩ := specRolled_of_ok hrun
  obtain ⟨hselection, -, -⟩ := selection_of_ok hrun
  have hsmall : ∀ n ∈ spec.shape.sides type, n ≤ 3 := by
    intro n hn
    obtain ⟨dice, hdice, rfl⟩ := exists_of_mem_sidesOf hn
    exact hsides dice hdice
  have hvalues := hrolled.thrown.eq_favourite hsource.honest hbias hsmall hgave hmissed
  exact ⟨outcome, s', hrun, hvalues, hselection.eq_map hvalues⟩

/-- Lucky or unlucky dice with two or three sides give the same outcome with
any two sources that answer within range and are equally secure, unless some
die misses with all of its draws.  Every die then shows its highest face, or
a one. -/
theorem small_biased_dice_leave_nothing_to_chance (spec : Spec)
    (hdice : ∀ d ∈ spec.groups, 1 ≤ d.count ∧ (d.sides = 2 ∨ d.sides = 3))
    (hfits : spec.highest < 2 ^ 32) (type : RollType) (bias : Bias)
    (hbias : bias = .lucky ∨ bias = .unlucky) (engine : Engine σ) (engine' : Engine τ)
    (hsource : engine.source.InRange) (hsource' : engine'.source.InRange)
    (hsecure : engine.source.secure = engine'.source.secure) (s : σ) (t : τ)
    (hmissed : ¬ SomeMissed bias (spec.shape.sides type)
      ((engine.logged.rollSpec spec type bias).drawn s))
    (hmissed' : ¬ SomeMissed bias (spec.shape.sides type)
      ((engine'.logged.rollSpec spec type bias).drawn t)) :
    ∃ outcome s' t', (engine.rollSpec spec type bias).run s = .ok outcome s' ∧
      (engine'.rollSpec spec type bias).run t = .ok outcome t' ∧
      outcome.rolls.values = (spec.shape.sides type).map bias.favourite ∧
      outcome.selected = (sidesOf 1 spec.groups).map bias.favourite := by
  have hsound : ∀ d ∈ spec.groups, d.refusal? = none := by
    refine sound_of_rollable fun d hd => ?_
    obtain ⟨hcount, hsides⟩ := hdice d hd
    exact ⟨hcount, by rw [Rollable]; omega⟩
  have hsmall : ∀ d ∈ spec.groups, d.sides ≤ 3 := by
    intro d hd
    obtain ⟨-, hsides⟩ := hdice d hd
    omega
  have hfair : bias ≠ .fair := by
    rintro rfl
    rcases hbias with h | h <;> exact nomatch h
  obtain ⟨outcome, s', hrun, hvalues, hselected⟩ :=
    rollSpec_favourite hsource hfits hsound hsmall type hfair hmissed
  obtain ⟨outcome', t', hrun', hvalues', -⟩ :=
    rollSpec_favourite hsource' hfits hsound hsmall type hfair hmissed'
  have heq : outcome = outcome' :=
    outcome_eq_of_values_eq hsecure hrun hrun' (hvalues.trans hvalues'.symm)
  exact ⟨outcome, s', t', hrun, by rw [heq, hrun'], hvalues, hselected⟩

/-- Every face of a die in turn; the state counts the values. -/
def Source.cycling : Source Nat where
  draw max := fun n =>
    if 1 ≤ max ∧ max ≤ 256 then .ok (n % max + 1) (n + 1) else .error (.outOfRange max) n
  secure := false
  ready? := none

theorem cycling_inRange : Source.cycling.InRange := by
  intro max hpos hmax n
  refine ⟨n % max + 1, n + 1, if_pos ⟨hpos, hmax⟩, Nat.le_add_left 1 _, Nat.mod_lt n hpos⟩

/-- A die with two sides and two with three, `1d2+2d3-1`. -/
def smallDice : Spec :=
  ⟨.complex [⟨1, 2⟩, ⟨2, 3⟩], -1, "1d2+2d3-1"⟩

def twoSmallDice : Spec :=
  ⟨.simple ⟨2, 3⟩, 0, "2d3"⟩

/-- Lucky dice show their highest faces at once, or after three misses.
Unlucky dice in pairs show ones, also with a source that has others. -/
theorem small_biased_dice_leave_nothing_to_chance_two_ways :
    (∃ outcome s',
      (Engine.rollSpec ⟨.highest, default⟩ smallDice .normal .lucky).run () = .ok outcome () ∧
      (Engine.rollSpec ⟨.cycling, default⟩ smallDice .normal .lucky).run 0 = .ok outcome s' ∧
      outcome.rolls.values = [2, 3, 3]) ∧
    ∃ outcome s',
      (Engine.rollSpec ⟨.constant 1, default⟩ twoSmallDice .advantage .unlucky).run () =
        .ok outcome () ∧
      (Engine.rollSpec ⟨.cycling, default⟩ twoSmallDice .advantage .unlucky).run 4 =
        .ok outcome s' ∧
      outcome.rolls.values = [1, 1, 1, 1] ∧ outcome.selected = [1, 1] := by
  refine ⟨?_, ?_⟩
  · obtain ⟨outcome, s', t', hrun, hrun', hvalues, -⟩ :=
      small_biased_dice_leave_nothing_to_chance smallDice (by decide) (by decide) .normal .lucky
        (.inl rfl) ⟨.highest, default⟩ ⟨.cycling, default⟩ highest_inRange cycling_inRange rfl
        () 0 (fun h => absurd h.length_le (by decide)) (fun h => absurd h.length_le (by decide))
    exact ⟨outcome, t', hrun, hrun', hvalues⟩
  · obtain ⟨outcome, s', t', hrun, hrun', hvalues, hselected⟩ :=
      small_biased_dice_leave_nothing_to_chance twoSmallDice (by decide) (by decide) .advantage
        .unlucky (.inr rfl) ⟨.constant 1, default⟩ ⟨.cycling, default⟩
        constant_one_steady.inRange cycling_inRange rfl () 4
        (fun h => absurd h.length_le (by decide +kernel))
        (fun h => absurd h.length_le (by decide +kernel))
    exact ⟨outcome, t', hrun, hrun', hvalues, hselected⟩

end DiceRoller
