/-
# Dice are refused at once or add up

Dice with the same number of sides are looked at four times before any of
them is rolled.

| | | |
| :-- | :-- | :-- |
| 1. | no dice | `invalidCount` |
| 2. | fewer than two sides, or more than a hundred | `invalidDie` |
| 3. | all sides together come to `2 ^ 32` or more | `overflow` |
| 4. | there is no room for the values | `capacity` |

The first of these that holds decides, and then no value is asked for and
the state stays what it was (`RefusedAtOnce`).  If none of them holds the
dice have no reason left to fail, and only the source can
(`FailedBySource`).

The fourth look is at nothing that could be read off the dice.  Dice that
are well within the first three may find no room for their values, and then
they fail by themselves, whatever they are rolled with.

The third look is what makes the values add up (`AddsUp`).  They are added
one after the other afterwards, each time with a check, and with a source
that keeps to its range no check can fail: what has been added so far is at
most what all sides come to.
-/
import DiceRoller.Proofs.Rolling.Bounds
import DiceRoller.Proofs.Rolling.Opposites
import DiceRoller.Proofs.Rolling.Room

namespace DiceRoller

variable {σ : Type}

/-! ## How dice in a row end -/

/-- Neither the values nor the group come to anything, nothing is drawn for
them, and the state stays what it was. -/
structure RefusedAtOnce (source : Source σ) (dice : Dice) (bias : Bias) (memory : Memory)
    (s : σ) (refusal : DiceError) : Prop where
  values : (source.rollMany dice.count dice.sides bias memory).run s = .error refusal s
  values_drawn : (source.logged.rollMany dice.count dice.sides bias memory).drawn s = []
  group : (source.rollDice dice bias memory).run s = .error refusal s
  group_drawn : (source.logged.rollDice dice bias memory).drawn s = []

/-- The last of the draws failed, for this reason and with this state, and
all before it were answered. -/
def FailedBySource (source : Source σ) (sides : Nat) (draws : List Draw) (s : σ)
    (error : DiceError) (s' : σ) : Prop :=
  ∃ before t, draws = before ++ [⟨sides, .error error⟩] ∧ Answered before ∧
    source.Gave s before t ∧ source.draw sides t = .error error s'

/-- Every value is a face, and the values have a total. -/
structure AddsUp (rolled : Rolled) : Prop where
  faces : ∀ value ∈ rolled.values, IsFace rolled.dice.sides value
  running : runningTotal? rolled.values = some (total rolled.values)
  total : rolled.total? = some (total rolled.values)
  lower : rolled.dice.count ≤ DiceRoller.total rolled.values
  upper : DiceRoller.total rolled.values ≤ rolled.dice.highest

/-! ## A group is its values -/

theorem rollDice_eq_map (source : Source σ) (dice : Dice) (bias : Bias) (memory : Memory) :
    source.rollDice dice bias memory =
      Rolled.mk dice <$> source.rollMany dice.count dice.sides bias memory := by
  rw [map_eq_pure_bind]
  rfl

theorem rollDice_drawn (source : Source σ) (dice : Dice) (bias : Bias) (memory : Memory)
    (s : σ) : (source.logged.rollDice dice bias memory).drawn s =
      (source.logged.rollMany dice.count dice.sides bias memory).drawn s := by
  rw [rollDice_eq_map, Rolling.drawn_map]

/-! ## Refused at once -/

/-- A refusal that no source has a part in comes at once. -/
theorem RefusedAtOnce.of_throw {dice : Dice} {bias : Bias} {memory : Memory}
    {refusal : DiceError} (h : ∀ (τ : Type) (source : Source τ),
      source.rollMany dice.count dice.sides bias memory = throw refusal)
    (source : Source σ) (s : σ) : RefusedAtOnce source dice bias memory s refusal where
  values := by
    rw [h σ source]
    rfl
  values_drawn := by
    rw [h _ source.logged]
    rfl
  group := by
    rw [rollDice_eq_map, h σ source]
    rfl
  group_drawn := by
    rw [rollDice_drawn, h _ source.logged]
    rfl

section Guards

variable {source : Source σ} {dice : Dice} {bias : Bias} {memory : Memory}

theorem rollMany_of_tooLarge (h : dice.refusal? = none) (hlarge : totalBound ≤ dice.highest) :
    source.rollMany dice.count dice.sides bias memory = throw .overflow := by
  obtain ⟨hcount, hsides⟩ := Dice.refusal?_eq_none_iff.mp h
  have hguard : totalBound ≤ dice.count * dice.sides := hlarge
  rw [Source.rollMany, if_neg hcount, if_neg (not_not_intro hsides), if_pos hguard]

theorem rollMany_of_noRoom (h : dice.refusal? = none) (hfits : dice.highest < totalBound)
    {reason : String} (hroom : memory 0 dice.count = some reason) :
    source.rollMany dice.count dice.sides bias memory = throw (.capacity reason) := by
  obtain ⟨hcount, hsides⟩ := Dice.refusal?_eq_none_iff.mp h
  have hguard : ¬ totalBound ≤ dice.count * dice.sides := Nat.not_le.mpr hfits
  rw [Source.rollMany, if_neg hcount, if_neg (not_not_intro hsides), if_neg hguard,
    Memory.reserve, hroom]
  rfl

/-- Only one reservation is made, so with room for it there might as well be
room for everything. -/
theorem rollMany_of_room (hroom : memory 0 dice.count = none) :
    source.rollMany dice.count dice.sides bias memory =
      source.rollMany dice.count dice.sides bias := by
  rw [Source.rollMany_unlimited, Source.rollMany, Memory.reserve, hroom]
  rfl

end Guards

/-! ## Rolled -/

theorem BrokenOff.exists_before {bias : Bias} {n sides : Nat} {draws : List Draw}
    {error : DiceError} (h : BrokenOff bias (List.replicate n sides) draws error) :
    ∃ before, Answered before ∧ draws = before ++ [⟨sides, .error error⟩] := by
  obtain ⟨throws, broken, hfront, rfl⟩ := h
  have hmem : broken.sides ∈ throws.map Throw.sides ++ [broken.sides] :=
    List.mem_append_right _ List.mem_cons_self
  have hsides : broken.sides = sides := List.eq_of_mem_replicate (hfront.subset hmem)
  refine ⟨throws.flatMap Throw.draws ++ drawsOf broken.sides broken.rejected, ?_, ?_⟩
  · exact (answered_throws throws).append (answered_drawsOf broken.sides broken.rejected)
  · rw [BrokenThrow.draws, ← List.append_assoc, hsides]

/-- Faces of dice that cannot total too much add up. -/
theorem AddsUp.of_faces {dice : Dice} (hfits : dice.highest < totalBound) {values : List Nat}
    (h : List.Forall₂ IsFace (List.replicate dice.count dice.sides) values) :
    AddsUp ⟨dice, values⟩ := by
  obtain ⟨-, hfaces⟩ := forall₂_replicate_iff.mp h
  have hupper : DiceRoller.total values ≤ dice.highest := by
    have hle := total_le_of_faces h
    rwa [total_replicate] at hle
  have hlower : dice.count ≤ DiceRoller.total values := by
    have hle := length_le_total_of_faces h
    rwa [List.length_replicate] at hle
  have htotal : total? values = some (DiceRoller.total values) :=
    total?_of_lt (Nat.lt_of_le_of_lt hupper hfits)
  exact ⟨hfaces, (runningTotal?_eq values).trans htotal, htotal, hlower, hupper⟩

section Rolled

variable {source : Source σ} {dice : Dice} {bias : Bias} {s s' : σ}

theorem rollMany_alike (source : Source σ) (dice : Dice) (bias : Bias) (s : σ) :
    Alike (source.Along s) (source.logged.rollMany dice.count dice.sides bias)
      (source.rollMany dice.count dice.sides bias) :=
  (rollMany_planned dice.count dice.sides bias).alike (logged_answerAlike source s)

variable (hsound : dice.refusal? = none) (hfits : dice.highest < totalBound)
include hsound hfits

theorem rollMany_traced : Traced (source.logged.rollMany dice.count dice.sides bias)
    (Thrown bias (List.replicate dice.count dice.sides))
    (BrokenOff bias (List.replicate dice.count dice.sides)) := by
  rw [Source.rollMany_of_sound hsound hfits]
  refine rollEach_traced source bias fun n hn => ?_
  rw [List.eq_of_mem_replicate hn]
  exact (Dice.refusal?_eq_none_iff.mp hsound).2

theorem failedBySource_of_error {error : DiceError}
    (hrun : (source.rollMany dice.count dice.sides bias).run s = .error error s') :
    FailedBySource source dice.sides
      ((source.logged.rollMany dice.count dice.sides bias).drawn s) s error s' := by
  obtain ⟨hbroken, hgave⟩ :=
    (rollMany_traced hsound hfits).of_error (rollMany_alike source dice bias s) hrun
  obtain ⟨before, hanswered, hdrawn⟩ := hbroken.exists_before
  rw [hdrawn] at hgave
  obtain ⟨t, hgave, hdraw⟩ := hgave.of_snoc
  exact ⟨before, t, hdrawn, hanswered, hgave, hdraw⟩

theorem addsUp_of_ok {values : List Nat}
    (hrun : (source.rollMany dice.count dice.sides bias).run s = .ok values s') :
    values.length = dice.count ∧ (source.Honest → AddsUp ⟨dice, values⟩) := by
  obtain ⟨hthrown, hgave⟩ :=
    (rollMany_traced hsound hfits).of_ok (rollMany_alike source dice bias s) hrun
  constructor
  · rw [hthrown.length_eq, List.length_replicate]
  · intro hsource
    exact AddsUp.of_faces hfits (hthrown.faces hsource hgave)

end Rolled

/-! ## Refused or rolled -/

/-- How an allocator that has no room puts it. -/
def allocationFailed : String :=
  "memory allocation failed because the memory allocator returned an error"

/-- Room for `limit` values in each reservation. -/
def Memory.upTo (limit : Nat) : Memory := fun _ count =>
  if count ≤ limit then none else some allocationFailed

/-- Dice are refused before anything is drawn, for the first of four
reasons, or nothing but the source can fail.  Values that were rolled are as
many as the dice, and with a source that keeps to its range they add up. -/
theorem dice_refused_at_once_or_add_up (source : Source σ) (dice : Dice) (bias : Bias)
    (memory : Memory) (s : σ) :
    (dice.count = 0 → RefusedAtOnce source dice bias memory s .invalidCount) ∧
    (dice.count ≠ 0 → ¬ (2 ≤ dice.sides ∧ dice.sides ≤ 100) →
      RefusedAtOnce source dice bias memory s (.invalidDie dice.sides)) ∧
    (dice.count ≠ 0 → 2 ≤ dice.sides ∧ dice.sides ≤ 100 → 2 ^ 32 ≤ dice.count * dice.sides →
      RefusedAtOnce source dice bias memory s .overflow) ∧
    (dice.count ≠ 0 → 2 ≤ dice.sides ∧ dice.sides ≤ 100 → dice.count * dice.sides < 2 ^ 32 →
      (∀ reason, memory 0 dice.count = some reason →
        RefusedAtOnce source dice bias memory s (.capacity reason)) ∧
      (memory 0 dice.count = none →
        (∀ error s',
          (source.rollMany dice.count dice.sides bias memory).run s = .error error s' →
            FailedBySource source dice.sides
              ((source.logged.rollMany dice.count dice.sides bias memory).drawn s) s error s') ∧
        ∀ error s', (source.rollDice dice bias memory).run s = .error error s' →
          FailedBySource source dice.sides
            ((source.logged.rollDice dice bias memory).drawn s) s error s') ∧
      (∀ values s',
        (source.rollMany dice.count dice.sides bias memory).run s = .ok values s' →
          values.length = dice.count ∧ (source.Honest → AddsUp ⟨dice, values⟩)) ∧
      ∀ rolled s', (source.rollDice dice bias memory).run s = .ok rolled s' →
        rolled.dice = dice ∧ rolled.values.length = dice.count ∧
          (source.Honest → AddsUp rolled)) := by
  refine ⟨?_, ?_, ?_, ?_⟩
  · intro hcount
    have hrefused := Dice.refusal?_of_count hcount
    exact .of_throw (fun _ _ => Source.rollMany_of_refused hrefused memory) source s
  · intro hcount hsides
    have hrefused := Dice.refusal?_of_sides hcount hsides
    exact .of_throw (fun _ _ => Source.rollMany_of_refused hrefused memory) source s
  · intro hcount hsides hlarge
    have hsound : dice.refusal? = none := Dice.refusal?_eq_none_iff.mpr ⟨hcount, hsides⟩
    exact .of_throw (fun _ _ => rollMany_of_tooLarge hsound hlarge) source s
  · intro hcount hsides hfits
    have hsound : dice.refusal? = none := Dice.refusal?_eq_none_iff.mpr ⟨hcount, hsides⟩
    refine ⟨?_, ?_, ?_, ?_⟩
    · intro reason hroom
      exact .of_throw (fun _ _ => rollMany_of_noRoom hsound hfits hroom) source s
    · intro hroom
      rw [rollDice_drawn, rollDice_eq_map, rollMany_of_room hroom, rollMany_of_room hroom]
      constructor
      · intro error s' hrun
        exact failedBySource_of_error hsound hfits hrun
      · intro error s' hrun
        rw [run_map_eq_error_iff] at hrun
        exact failedBySource_of_error hsound hfits hrun
    · intro values s' hrun
      have hfree := (rollMany_curtails memory source dice.count dice.sides bias).of_ok hrun
      exact addsUp_of_ok hsound hfits hfree
    · intro rolled s' hrun
      rw [rollDice_eq_map, run_map_eq_ok_iff] at hrun
      obtain ⟨values, hvalues, rfl⟩ := hrun
      have hfree := (rollMany_curtails memory source dice.count dice.sides bias).of_ok hvalues
      exact ⟨rfl, addsUp_of_ok hsound hfits hfree⟩

/-- No dice with no sides; more dice with one side than could be added up;
one die more than could be added up; as many as can be added up, with room
for a million.  A list that comes to its end amid two lucky dice, and two
dice that show their highest face. -/
theorem dice_refused_at_once_or_add_up_six_ways :
    RefusedAtOnce .listed ⟨0, 0⟩ .lucky (.upTo 0) [3] .invalidCount ∧
    RefusedAtOnce .listed ⟨4294967295, 1⟩ .fair (.upTo 0) [3] (.invalidDie 1) ∧
    RefusedAtOnce .seeded ⟨2147483648, 2⟩ .unlucky (.upTo 0) 42 .overflow ∧
    RefusedAtOnce .seeded ⟨2147483647, 2⟩ .unlucky (.upTo 1000000) 42
      (.capacity allocationFailed) ∧
    FailedBySource .listed 6
      ((Source.listed.logged.rollDice ⟨2, 6⟩ .lucky (.upTo 2)).drawn [5, 3]) [5, 3]
      .exhausted [] ∧
    AddsUp ⟨⟨2, 6⟩, [6, 6]⟩ := by
  refine ⟨?_, ?_, ?_, ?_, ?_, ?_⟩
  · exact (dice_refused_at_once_or_add_up .listed ⟨0, 0⟩ .lucky (.upTo 0) [3]).1 rfl
  · exact (dice_refused_at_once_or_add_up .listed ⟨4294967295, 1⟩ .fair (.upTo 0) [3]).2.1
      (by decide) (by decide)
  · exact (dice_refused_at_once_or_add_up .seeded ⟨2147483648, 2⟩ .unlucky (.upTo 0) 42).2.2.1
      (by decide) (by decide) (by decide)
  · obtain ⟨hrefused, -⟩ :=
      (dice_refused_at_once_or_add_up .seeded ⟨2147483647, 2⟩ .unlucky (.upTo 1000000) 42).2.2.2
        (by decide) (by decide) (by decide)
    exact hrefused _ rfl
  · obtain ⟨-, hfailed, -⟩ :=
      (dice_refused_at_once_or_add_up .listed ⟨2, 6⟩ .lucky (.upTo 2) [5, 3]).2.2.2
        (by decide) (by decide) (by decide)
    exact (hfailed rfl).2 .exhausted [] rfl
  · obtain ⟨-, -, -, hrolled⟩ :=
      (dice_refused_at_once_or_add_up .highest ⟨2, 6⟩ .lucky (.upTo 2) ()).2.2.2
        (by decide) (by decide) (by decide)
    exact (hrolled ⟨⟨2, 6⟩, [6, 6]⟩ () rfl).2.2 highest_inRange.honest

/-- As many dice as can be added up, rolled with a source that never fails,
fail when there is room for a million values only.  No draw has failed, for
none was made. -/
theorem dice_fail_without_room :
    2147483647 ≠ 0 ∧ (2 ≤ 2 ∧ 2 ≤ 100) ∧ 2147483647 * 2 < 2 ^ 32 ∧
    RefusedAtOnce (.constant 1) ⟨2147483647, 2⟩ .fair (.upTo 1000000) ()
      (.capacity allocationFailed) ∧
    ¬ FailedBySource (.constant 1) 2
      (((Source.constant 1).logged.rollMany 2147483647 2 .fair (.upTo 1000000)).drawn ()) ()
      (.capacity allocationFailed) () := by
  have hsound : Dice.refusal? ⟨2147483647, 2⟩ = none := by decide
  have hfits : Dice.highest ⟨2147483647, 2⟩ < totalBound := by decide
  refine ⟨by decide, by decide, by decide, ?_, ?_⟩
  · exact .of_throw (fun _ _ => rollMany_of_noRoom hsound hfits rfl) (.constant 1) ()
  · rintro ⟨before, t, -, -, -, hdraw⟩
    exact nomatch hdraw

end DiceRoller
