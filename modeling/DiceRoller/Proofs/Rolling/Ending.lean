/-
# How a roll can end

From dice in a row to groups, hands and whole specs: with what is drawn
for them, and with what becomes of a roll that fails.  There are four ways
to fail (`SpecFailure`), and each says what was drawn before.

    tooLarge    the dice could total too much; nothing is drawn
    refused     a group cannot be rolled; the groups before it were
    brokenOff   the source failed; so did the roll, at once
    overflow    the values that came up total too much; all dice were rolled

The log of an arbitrary source then tells that every value of an outcome is
the last draw of its die, and that nothing else was drawn.
-/
import Mathlib.Algebra.Order.BigOperators.Group.List
import Mathlib.Algebra.Order.Group.Nat
import Mathlib.Data.List.TakeWhile
import DiceRoller.Proofs.Rolling.Throw

namespace DiceRoller

variable {σ : Type}

/-! ## Groups -/

/-- A group cannot be rolled, and the dice of the groups before it were
thrown. -/
def Refused (bias : Bias) (perPlace : Nat) (groups : List Dice) (draws : List Draw)
    (error : DiceError) : Prop :=
  ∃ before dice after values, groups = before ++ dice :: after ∧
    (∀ d ∈ before, d.refusal? = none) ∧ dice.refusal? = some error ∧
      Thrown bias (sidesOf perPlace before) draws values

theorem Refused.not_sound {bias : Bias} {perPlace : Nat} {groups : List Dice}
    {draws : List Draw} {error : DiceError} (h : Refused bias perPlace groups draws error) :
    ¬ ∀ d ∈ groups, d.refusal? = none := by
  obtain ⟨before, dice, after, _, rfl, _, hdice, _⟩ := h
  intro hsound
  have hnone := hsound dice (List.mem_append_right before List.mem_cons_self)
  exact absurd (hnone.symm.trans hdice) nofun

theorem takeWhile_sound {groups : List Dice} (h : ∀ d ∈ groups, d.refusal? = none) :
    groups.takeWhile (fun d => d.refusal?.isNone) = groups := by
  refine List.takeWhile_eq_self_iff.mpr fun d hd => ?_
  rw [h d hd]
  rfl

theorem takeWhile_sound_append {before after : List Dice} {dice : Dice} {refusal : DiceError}
    (h : ∀ d ∈ before, d.refusal? = none) (hdice : dice.refusal? = some refusal) :
    (before ++ dice :: after).takeWhile (fun d => d.refusal?.isNone) = before := by
  rw [List.takeWhile_append_of_pos fun d hd => by rw [h d hd]; rfl, List.takeWhile_cons, hdice]
  exact List.append_nil before

theorem rollGroups_of_sound (source : Source σ) (bias : Bias) (perPlace : Nat)
    {groups : List Dice} (h : ∀ d ∈ groups, d.refusal? = none) :
    source.rollGroups bias perPlace groups =
      source.rollEach bias (sidesOf perPlace groups) := by
  rw [Source.rollGroups, List.findSome?_eq_none_iff.mpr h, takeWhile_sound h]
  exact bind_pure _

theorem exists_of_mem_sidesOf {perPlace : Nat} {groups : List Dice} {n : Nat}
    (hn : n ∈ sidesOf perPlace groups) : ∃ dice ∈ groups, dice.sides = n := by
  obtain ⟨dice, hdice, hmem⟩ := List.mem_flatMap.mp hn
  exact ⟨dice, hdice, (List.eq_of_mem_replicate hmem).symm⟩

theorem rollable_of_mem_sidesOf {perPlace : Nat} {groups : List Dice} {n : Nat}
    (h : ∀ d ∈ groups, d.refusal? = none) (hn : n ∈ sidesOf perPlace groups) :
    Rollable n := by
  obtain ⟨dice, hdice, rfl⟩ := exists_of_mem_sidesOf hn
  exact (Dice.refusal?_eq_none_iff.mp (h dice hdice)).2

theorem sidesOf_append (perPlace : Nat) (before after : List Dice) :
    sidesOf perPlace (before ++ after) = sidesOf perPlace before ++ sidesOf perPlace after :=
  List.flatMap_append

theorem BrokenOff.append {bias : Bias} {sides more : List Nat} {draws : List Draw}
    {error : DiceError} (h : BrokenOff bias sides draws error) :
    BrokenOff bias (sides ++ more) draws error := by
  obtain ⟨throws, broken, hfront, hdraws⟩ := h
  exact ⟨throws, broken, hfront.trans (List.prefix_append sides more), hdraws⟩

theorem rollGroups_traced (source : Source σ) (bias : Bias) (perPlace : Nat)
    (groups : List Dice) :
    Traced (source.logged.rollGroups bias perPlace groups)
      (fun draws values => (∀ d ∈ groups, d.refusal? = none) ∧
        Thrown bias (sidesOf perPlace groups) draws values)
      (fun draws e => BrokenOff bias (sidesOf perPlace groups) draws e ∨
        Refused bias perPlace groups draws e) := by
  cases hfind : groups.findSome? Dice.refusal? with
  | none =>
      have hsound : ∀ d ∈ groups, d.refusal? = none := List.findSome?_eq_none_iff.mp hfind
      rw [rollGroups_of_sound source.logged bias perPlace hsound]
      exact (rollEach_traced source bias fun n => rollable_of_mem_sidesOf hsound).mono
        (fun draws values h => ⟨hsound, h⟩) (fun draws e h => .inl h)
  | some refusal =>
      obtain ⟨before, dice, after, rfl, hdice, hbefore⟩ :=
        List.findSome?_eq_some_iff.mp hfind
      rw [Source.rollGroups, takeWhile_sound_append hbefore hdice, hfind]
      have hthrow (values : List Nat) :
          Traced (throw refusal : Rolling (Source.Logged σ) (List Nat)) (fun _ _ => False)
            (fun draws e => draws = [] ∧ e = refusal) := Traced.throw ⟨rfl, rfl⟩
      refine Traced.mono ((rollEach_traced source bias fun n =>
        rollable_of_mem_sidesOf hbefore).bind hthrow) ?_ ?_
      · rintro draws v ⟨_, _, _, _, _, hfalse⟩
        exact hfalse.elim
      · rintro draws e (hbroken | ⟨first, values, _, rfl, hthrown, rfl, rfl⟩)
        · left
          rw [sidesOf_append]
          exact hbroken.append
        · right
          rw [List.append_nil]
          exact ⟨before, dice, after, values, rfl, hbefore, hdice, hthrown⟩

/-! ## Specs -/

theorem rollShape_traced (source : Source σ) (type : RollType) (bias : Bias) (shape : Shape)
    (hbound : ∀ dice ∈ shape.groups, dice.highest < totalBound) :
    Traced (source.logged.rollShape type bias shape)
      (fun draws hand => ((∀ d ∈ shape.groups, d.refusal? = none) ∧
        Thrown bias (shape.sides type) draws hand.rolls.values) ∧
          hand.keep? = shape.keep? type)
      (fun draws e => BrokenOff bias (shape.sides type) draws e ∨
        Refused bias (shape.perPlace type) shape.groups draws e) := by
  have hvalues := rollGroups_traced source bias (shape.perPlace type) shape.groups
  rw [← rollShape_values source.logged type bias shape hbound] at hvalues
  exact hvalues.of_map.and_value fun _ _ _ => rollShape_keep?

/-- What is true when a spec was rolled. -/
structure SpecRolled (spec : Spec) (type : RollType) (bias : Bias) (draws : List Draw)
    (outcome : Outcome) : Prop where
  fits : spec.highest < totalBound
  sound : ∀ d ∈ spec.groups, d.refusal? = none
  thrown : Thrown bias (spec.shape.sides type) draws outcome.rolls.values
  paired : outcome.rolls.isPaired = (spec.shape.keep? type).isSome

/-- What is true when a spec could not be rolled. -/
inductive SpecFailure (spec : Spec) (type : RollType) (bias : Bias) :
    List Draw → DiceError → Prop
  | tooLarge (large : totalBound ≤ spec.highest) : SpecFailure spec type bias [] .overflow
  | refused {draws : List Draw} {error : DiceError} (fits : spec.highest < totalBound)
      (h : Refused bias (spec.shape.perPlace type) spec.groups draws error) :
      SpecFailure spec type bias draws error
  | brokenOff {draws : List Draw} {error : DiceError} (fits : spec.highest < totalBound)
      (h : BrokenOff bias (spec.shape.sides type) draws error) :
      SpecFailure spec type bias draws error
  | overflow {draws : List Draw} {hand : Hand} (fits : spec.highest < totalBound)
      (thrown : Thrown bias (spec.shape.sides type) draws hand.rolls.values)
      (keep : hand.keep? = spec.shape.keep? type)
      (large : totalBound ≤ total hand.selected) : SpecFailure spec type bias draws .overflow

theorem Spec.highest_lt_of_mem {spec : Spec} (hfits : spec.highest < totalBound) :
    ∀ dice ∈ spec.shape.groups, dice.highest < totalBound := by
  intro dice hdice
  have hle : dice.highest ≤ spec.highest := List.le_sum_of_mem (List.mem_map_of_mem hdice)
  exact Nat.lt_of_le_of_lt hle hfits

/-- What is done with the hand draws nothing more. -/
theorem rollShape_then_traced (source : Source σ) {spec : Spec} {type : RollType} {bias : Bias}
    (hfits : spec.highest < totalBound) {next : Hand → Rolling (Source.Logged σ) Outcome}
    (hnext : ∀ hand, Traced (next hand)
      (fun draws outcome => draws = [] ∧ outcome.rolls = hand.rolls)
      (fun draws e => draws = [] ∧ e = .overflow ∧ totalBound ≤ total hand.selected)) :
    Traced (source.logged.rollShape type bias spec.shape >>= next) (SpecRolled spec type bias)
      (SpecFailure spec type bias) := by
  have hshape := rollShape_traced source type bias spec.shape (Spec.highest_lt_of_mem hfits)
  refine Traced.mono (hshape.bind hnext) ?_ ?_
  · rintro draws outcome ⟨first, hand, _, rfl, ⟨⟨hsound, hthrown⟩, hkeep⟩, rfl, hrolls⟩
    rw [List.append_nil]
    exact ⟨hfits, hsound, by rw [hrolls]; exact hthrown,
      by rw [hrolls, Hand.isPaired_rolls, hkeep]⟩
  · rintro draws e ((hbroken | hrefused) |
      ⟨first, hand, _, rfl, ⟨⟨_, hthrown⟩, hkeep⟩, rfl, rfl, hlarge⟩)
    · exact .brokenOff hfits hbroken
    · exact .refused hfits hrefused
    · rw [List.append_nil]
      exact .overflow hfits hthrown hkeep hlarge

theorem rollSpec_traced (engine : Engine σ) (spec : Spec) (type : RollType) (bias : Bias) :
    Traced (engine.logged.rollSpec spec type bias) (SpecRolled spec type bias)
      (SpecFailure spec type bias) := by
  rw [Engine.rollSpec]
  split
  · next hlarge => exact Traced.throw (.tooLarge hlarge)
  · next hfits =>
      refine rollShape_then_traced engine.source (Nat.not_le.mp hfits) fun hand => ?_
      cases htotal : total? hand.selected with
      | some sum => exact Traced.pure ⟨rfl, rfl⟩
      | none => exact Traced.throw ⟨rfl, rfl, bounded?_eq_none.mp htotal⟩

/-! ## Draws that fail -/

def Answered (draws : List Draw) : Prop :=
  ∀ draw ∈ draws, ∃ value, draw.answer = .ok value

theorem answered_nil : Answered [] :=
  fun _ hdraw => absurd hdraw List.not_mem_nil

theorem answered_drawsOf (sides : Nat) (values : List Nat) : Answered (drawsOf sides values) := by
  intro draw hdraw
  obtain ⟨value, _, rfl⟩ := List.mem_map.mp hdraw
  exact ⟨value, rfl⟩

theorem answered_throws {bias : Bias} (throws : List (Throw bias)) :
    Answered (throws.flatMap Throw.draws) := by
  intro draw hdraw
  obtain ⟨throw, _, hmem⟩ := List.mem_flatMap.mp hdraw
  exact answered_drawsOf _ _ draw hmem

namespace Answered

variable {draws before after : List Draw} {max max' : Nat} {error error' : DiceError}

theorem append {more : List Draw} (h : Answered draws) (hmore : Answered more) :
    Answered (draws ++ more) :=
  fun draw hdraw => (List.mem_append.mp hdraw).elim (h draw) (hmore draw)

theorem ne_error (h : Answered draws) : draws ≠ before ++ ⟨max, .error error⟩ :: after := by
  rintro rfl
  obtain ⟨value, hvalue⟩ := h ⟨max, .error error⟩ (by simp)
  exact nomatch hvalue

theorem eq_of_append_error (h : Answered draws)
    (heq : draws ++ [⟨max', .error error'⟩] = before ++ ⟨max, .error error⟩ :: after) :
    before = draws ∧ max = max' ∧ error = error' ∧ after = [] := by
  rcases List.eq_nil_or_concat after with rfl | ⟨init, last, rfl⟩
  · obtain ⟨rfl, hlast⟩ := List.append_inj' heq rfl
    cases hlast
    exact ⟨rfl, rfl, rfl, rfl⟩
  · rw [List.concat_eq_append, ← List.cons_append, ← List.append_assoc] at heq
    exact absurd (List.append_inj' heq rfl).1 h.ne_error

end Answered

theorem Thrown.answered {bias : Bias} {sides values : List Nat} {draws : List Draw}
    (h : Thrown bias sides draws values) : Answered draws := by
  obtain ⟨throws, _, _, rfl⟩ := h
  exact answered_throws throws

/-- If a draw failed, so did the roll, and that is where it ended. -/
theorem SpecFailure.brokenOff_of_error {spec : Spec} {type : RollType} {bias : Bias}
    {before after : List Draw} {max : Nat} {error error' : DiceError}
    (h : SpecFailure spec type bias (before ++ ⟨max, .error error⟩ :: after) error') :
    error = error' ∧ after = [] ∧ ∃ (throws : List (Throw bias)) (broken : BrokenThrow bias),
      broken.sides = max ∧
      before = throws.flatMap Throw.draws ++ drawsOf max broken.rejected ∧
      throws.map Throw.sides ++ [max] <+: spec.shape.sides type := by
  generalize hdraws : before ++ ⟨max, .error error⟩ :: after = draws at h
  cases h with
  | tooLarge => exact absurd hdraws (by simp)
  | refused fits hrefused =>
      obtain ⟨_, _, _, _, _, _, _, hthrown⟩ := hrefused
      exact absurd hdraws.symm hthrown.answered.ne_error
  | overflow fits hthrown => exact absurd hdraws.symm hthrown.answered.ne_error
  | brokenOff fits hbroken =>
      obtain ⟨throws, broken, hfront, heq⟩ := hbroken
      rw [← hdraws, BrokenThrow.draws, ← List.append_assoc] at heq
      obtain ⟨rfl, rfl, rfl, rfl⟩ := ((answered_throws throws).append
        (answered_drawsOf broken.sides broken.rejected)).eq_of_append_error heq.symm
      exact ⟨rfl, rfl, throws, broken, rfl, rfl, hfront⟩

/-! ## What the log of a roll tells -/

namespace Traced

variable {α : Type} {source : Source σ} {roll : Rolling (Source.Logged σ) α}
  {plain : Rolling σ α} {Done : List Draw → α → Prop} {Failed : List Draw → DiceError → Prop}
  {s s' : σ}

theorem of_ok (h : Traced roll Done Failed) (halike : Alike (source.Along s) roll plain) {a : α}
    (hrun : plain.run s = .ok a s') :
    Done (roll.drawn s) a ∧ source.Gave s (roll.drawn s) s' := by
  obtain ⟨hlogged, hgave⟩ := run_logged_of_ok halike hrun
  have hend := h ⟨s, []⟩
  rw [hlogged] at hend
  obtain ⟨draws, hlog, hdone⟩ := hend
  rw [List.nil_append] at hlog
  subst hlog
  exact ⟨hdone, hgave⟩

theorem of_error (h : Traced roll Done Failed) (halike : Alike (source.Along s) roll plain)
    {e : DiceError} (hrun : plain.run s = .error e s') :
    Failed (roll.drawn s) e ∧ source.Gave s (roll.drawn s) s' := by
  obtain ⟨hlogged, hgave⟩ := run_logged_of_error halike hrun
  have hend := h ⟨s, []⟩
  rw [hlogged] at hend
  obtain ⟨draws, hlog, hfailed⟩ := hend
  rw [List.nil_append] at hlog
  subst hlog
  exact ⟨hfailed, hgave⟩

end Traced

section Drawn

variable {engine : Engine σ} {spec : Spec} {type : RollType} {bias : Bias} {s s' : σ}

theorem specRolled_of_ok {outcome : Outcome}
    (hrun : (engine.rollSpec spec type bias).run s = .ok outcome s') :
    SpecRolled spec type bias ((engine.logged.rollSpec spec type bias).drawn s) outcome ∧
      engine.source.Gave s ((engine.logged.rollSpec spec type bias).drawn s) s' :=
  (rollSpec_traced engine spec type bias).of_ok (rollSpec_logged engine spec type bias s) hrun

theorem specFailure_of_error {error : DiceError}
    (hrun : (engine.rollSpec spec type bias).run s = .error error s') :
    SpecFailure spec type bias ((engine.logged.rollSpec spec type bias).drawn s) error ∧
      engine.source.Gave s ((engine.logged.rollSpec spec type bias).drawn s) s' :=
  (rollSpec_traced engine spec type bias).of_error (rollSpec_logged engine spec type bias s) hrun

end Drawn

/-- Whatever the source does, the log of a roll that gave an outcome is one
throw for each die, in the order of the dice, with the values of the outcome
for its last draws.  If a draw failed, the roll failed at once and for the
same reason, amid the throw of one die and after whole throws of those
before it. -/
theorem rollSpec_drawn (engine : Engine σ) (spec : Spec) (type : RollType) (bias : Bias)
    (s : σ) :
    (∀ outcome s', (engine.rollSpec spec type bias).run s = .ok outcome s' →
      engine.source.Gave s ((engine.logged.rollSpec spec type bias).drawn s) s' ∧
      outcome.rolls.isPaired = (spec.shape.keep? type).isSome ∧
      ∃ throws : List (Throw bias),
        (engine.logged.rollSpec spec type bias).drawn s = throws.flatMap Throw.draws ∧
        throws.map Throw.sides = spec.shape.sides type ∧
        throws.map Throw.value = outcome.rolls.values ∧
        (∀ throw ∈ throws, 1 ≤ throw.draws.length ∧ throw.draws.length ≤ 101 ∧
          (throw.draws.length < 101 → bias.rerolls throw.sides throw.value = false)) ∧
        (bias = .fair → ∀ throw ∈ throws, throw.draws.length = 1)) ∧
    (∀ before max error after,
      (engine.logged.rollSpec spec type bias).drawn s =
          before ++ ⟨max, .error error⟩ :: after →
        after = [] ∧
        (∃ s', (engine.rollSpec spec type bias).run s = .error error s' ∧
          engine.source.Gave s ((engine.logged.rollSpec spec type bias).drawn s) s') ∧
        ∃ (throws : List (Throw bias)) (broken : BrokenThrow bias),
          broken.sides = max ∧
          before = throws.flatMap Throw.draws ++ drawsOf max broken.rejected ∧
          throws.map Throw.sides ++ [max] <+: spec.shape.sides type) := by
  refine ⟨?_, ?_⟩
  · intro outcome s' hrun
    obtain ⟨hrolled, hgave⟩ := specRolled_of_ok hrun
    obtain ⟨throws, hsides, hvalues, hdraws⟩ := hrolled.thrown
    refine ⟨hgave, hrolled.paired, throws, hdraws, hsides, hvalues, ?_, ?_⟩
    · intro throw _
      exact ⟨throw.length_draws_pos, throw.length_draws_le, throw.kept_of_length_draws_lt⟩
    · rintro rfl throw _
      exact throw.length_draws_of_fair
  · intro before max error after hdrawn
    cases hrun : (engine.rollSpec spec type bias).run s with
    | ok outcome s' =>
        obtain ⟨hrolled, _⟩ := specRolled_of_ok hrun
        exact absurd hdrawn hrolled.thrown.answered.ne_error
    | error error' s' =>
        obtain ⟨hfailure, hgave⟩ := specFailure_of_error hrun
        rw [hdrawn] at hfailure
        obtain ⟨rfl, hafter, hbroken⟩ := hfailure.brokenOff_of_error
        exact ⟨hafter, ⟨s', rfl, hgave⟩, hbroken⟩

def twoDice : Spec :=
  ⟨.simple ⟨2, 6⟩, 0, "2d6"⟩

/-- The first of two lucky dice is rolled again; then the second is kept, or
it is not and the list has come to its end. -/
theorem rollSpec_drawn_two_lucky_dice :
    (∃ outcome, (Engine.rollSpec ⟨.listed, default⟩ twoDice .normal .lucky).run [2, 5, 6] =
        .ok outcome [] ∧ outcome.rolls = .flat [5, 6] ∧
      ∃ throws : List (Throw .lucky), drawsOf 6 [2, 5, 6] = throws.flatMap Throw.draws ∧
        throws.map Throw.sides = [6, 6] ∧ throws.map Throw.value = [5, 6]) ∧
    (∃ s', (Engine.rollSpec ⟨.listed, default⟩ twoDice .normal .lucky).run [2, 5, 1] =
        .error .exhausted s') ∧
      ∃ (throws : List (Throw .lucky)) (broken : BrokenThrow .lucky),
        drawsOf 6 [2, 5, 1] = throws.flatMap Throw.draws ++ drawsOf 6 broken.rejected := by
  refine ⟨⟨_, rfl, rfl, ?_⟩, ?_⟩
  · obtain ⟨_, _, throws, hdraws, hsides, hvalues, _⟩ :=
      (rollSpec_drawn ⟨.listed, default⟩ twoDice .normal .lucky [2, 5, 6]).1 _ _ rfl
    exact ⟨throws, hdraws, hsides, hvalues⟩
  · obtain ⟨_, ⟨s', hrun, _⟩, throws, broken, _, hdraws, _⟩ :=
      (rollSpec_drawn ⟨.listed, default⟩ twoDice .normal .lucky [2, 5, 1]).2
        (drawsOf 6 [2, 5, 1]) 6 .exhausted [] rfl
    exact ⟨⟨s', hrun⟩, throws, broken, hdraws⟩

end DiceRoller
