/-
# What becomes of a roll

With a source that answers every request within its range a roll is
decided by the dice alone.

| | | |
| :-- | :-- | :-- |
| `2 ^ 32 ≤ highest` | overflow | nothing is drawn |
| else, some group cannot be rolled | the refusal of the first such group | the groups before it are rolled |
| else | an outcome | all dice are rolled |

Two of the four ways to fail (`SpecFailure`) have to be ruled out.  The
source does not fail by assumption.  And the values that count do not total
too much: each is at most the sides of its die, of a pair only one counts,
and what all sides total was checked before.
-/
import DiceRoller.Proofs.Rolling.Selection
import DiceRoller.Source.Wyrand

namespace DiceRoller

variable {σ : Type}

/-! ## Values within range -/

def IsFace (sides value : Nat) : Prop :=
  1 ≤ value ∧ value ≤ sides

/-- Values keep to the range asked for. -/
def Source.Honest (source : Source σ) : Prop :=
  ∀ max, 1 ≤ max → max ≤ 256 → ∀ s value s', source.draw max s = .ok value s' →
    1 ≤ value ∧ value ≤ max

/-- Every request for a number up to 256 is answered, and within range. -/
def Source.InRange (source : Source σ) : Prop :=
  ∀ max, 1 ≤ max → max ≤ 256 → ∀ s, ∃ value s', source.draw max s = .ok value s' ∧
    1 ≤ value ∧ value ≤ max

theorem Source.InRange.honest {source : Source σ} (h : source.InRange) : source.Honest := by
  intro max hpos hmax s value s' hdraw
  obtain ⟨value', s'', hdraw', hrange⟩ := h max hpos hmax s
  rw [hdraw] at hdraw'
  cases hdraw'
  exact hrange

theorem Rollable.le_256 {sides : Nat} (h : Rollable sides) : 2 ≤ sides ∧ sides ≤ 256 := by
  obtain ⟨hlow, hhigh⟩ := h
  omega

theorem Rollable.pos {sides : Nat} (h : Rollable sides) : 1 ≤ sides :=
  Nat.le_of_succ_le h.1

theorem Throw.exists_draw {bias : Bias} {source : Source σ} {s s' : σ}
    {throws : List (Throw bias)} (hgave : source.Gave s (throws.flatMap draws) s')
    {throw : Throw bias} (hmem : throw ∈ throws) {value : Nat}
    (hvalue : value ∈ throw.rejected ++ [throw.value]) :
    ∃ t t', source.draw throw.sides t = .ok value t' := by
  have hdraw : ⟨throw.sides, .ok value⟩ ∈ throw.draws := List.mem_map_of_mem hvalue
  exact hgave.of_mem (List.mem_flatMap.mpr ⟨throw, hmem, hdraw⟩)

theorem Throw.value_range {bias : Bias} {source : Source σ} (hsource : source.Honest)
    {s s' : σ} {throws : List (Throw bias)} (hgave : source.Gave s (throws.flatMap draws) s')
    {throw : Throw bias} (hmem : throw ∈ throws) :
    IsFace throw.sides throw.value := by
  obtain ⟨t, t', hdraw⟩ :=
    throw.exists_draw hgave hmem (List.mem_append_right throw.rejected List.mem_cons_self)
  exact hsource throw.sides throw.rollable.pos throw.rollable.le_256.2 t throw.value t' hdraw

theorem Thrown.faces {bias : Bias} {source : Source σ} (hsource : source.Honest) {s s' : σ}
    {sides values : List Nat} {draws : List Draw} (hthrown : Thrown bias sides draws values)
    (hgave : source.Gave s draws s') : List.Forall₂ IsFace sides values := by
  obtain ⟨throws, rfl, rfl, rfl⟩ := hthrown
  rw [List.forall₂_map_left_iff, List.forall₂_map_right_iff, List.forall₂_same]
  intro throw hthrow
  exact Throw.value_range hsource hgave hthrow

/-! ## Totals -/

theorem total_le_of_faces {sides values : List Nat} (h : List.Forall₂ IsFace sides values) :
    total values ≤ total sides := by
  have hle : List.Forall₂ (flip (· ≤ ·)) sides values := h.imp fun _ _ hface => hface.2
  exact hle.flip.sum_le_sum

theorem total_sidesOf_one (groups : List Dice) :
    total (sidesOf 1 groups) = total (groups.map Dice.highest) := by
  induction groups with
  | nil => rfl
  | cons dice groups ih =>
      rw [sidesOf_cons, total_append, ih, total_replicate, Nat.one_mul]
      rfl

theorem Thrown.total_selected_le {source : Source σ} (hsource : source.Honest) {type : RollType}
    {bias : Bias} {shape : Shape} {hand : Hand} {draws : List Draw} {s s' : σ}
    (hthrown : Thrown bias (shape.sides type) draws hand.rolls.values)
    (hgave : source.Gave s draws s') (hkeep : hand.keep? = shape.keep? type) :
    total hand.selected ≤ total (shape.groups.map Dice.highest) := by
  have hfaces := (hthrown.selection hkeep).forall₂ (hthrown.faces hsource hgave)
  calc total hand.selected
      ≤ total (sidesOf 1 shape.groups) := total_le_of_faces hfaces
    _ = total (shape.groups.map Dice.highest) := total_sidesOf_one shape.groups

theorem rollShape_total_le {source : Source σ} (hsource : source.Honest) {type : RollType}
    {bias : Bias} {shape : Shape} (hbound : ∀ dice ∈ shape.groups, dice.highest < totalBound)
    {s s' : σ} {hand : Hand} (hrun : (source.rollShape type bias shape).run s = .ok hand s') :
    total hand.selected ≤ total (shape.groups.map Dice.highest) := by
  obtain ⟨⟨⟨_, hthrown⟩, hkeep⟩, hgave⟩ := (rollShape_traced source type bias shape hbound).of_ok
    (rollShape_alike (logged_answerAlike source s) type bias shape) hrun
  exact hthrown.total_selected_le hsource hgave hkeep

/-- If the dice cannot total too much, an honest source's values are always
recorded. -/
theorem rollSpec_eq_record {engine : Engine σ} (hsource : engine.source.Honest) {spec : Spec}
    (hfits : spec.highest < totalBound) (type : RollType) (bias : Bias) :
    engine.rollSpec spec type bias =
      (fun hand => engine.record spec type bias hand (total hand.selected)) <$>
        engine.source.rollShape type bias spec.shape := by
  funext s
  rw [Engine.rollSpec, if_neg (Nat.not_le.mpr hfits), map_eq_pure_bind]
  show EStateM.run (_ >>= _) s = EStateM.run (_ >>= _) s
  rw [EStateM.run_bind, EStateM.run_bind]
  cases hrun : (engine.source.rollShape type bias spec.shape).run s with
  | error error s' => rfl
  | ok hand s' =>
      have hle := rollShape_total_le hsource (Spec.highest_lt_of_mem hfits) hrun
      dsimp only
      rw [total?_of_lt (Nat.lt_of_le_of_lt hle hfits)]

/-! ## The verdict -/

section Verdict

variable {engine : Engine σ} {spec : Spec} {type : RollType} {bias : Bias} {s s' : σ}

/-- Within range neither does the source fail nor do the values total too
much, so a group was refused. -/
theorem refused_of_error (hsource : engine.source.InRange) (hfits : spec.highest < totalBound)
    {error : DiceError} (hrun : (engine.rollSpec spec type bias).run s = .error error s') :
    Refused bias (spec.shape.perPlace type) spec.groups
      ((engine.logged.rollSpec spec type bias).drawn s) error := by
  obtain ⟨hfailure, hgave⟩ := specFailure_of_error hrun
  generalize (engine.logged.rollSpec spec type bias).drawn s = draws at hfailure hgave ⊢
  cases hfailure with
  | tooLarge hlarge => exact absurd hfits (Nat.not_lt.mpr hlarge)
  | refused _ hrefused => exact hrefused
  | brokenOff _ hbroken =>
      obtain ⟨throws, broken, _, rfl⟩ := hbroken
      have hlast : ⟨broken.sides, .error error⟩ ∈ broken.draws error :=
        List.mem_append_right _ List.mem_cons_self
      obtain ⟨t, t', hfailed⟩ := hgave.of_mem (List.mem_append_right _ hlast)
      obtain ⟨value, t'', hdraw, _⟩ :=
        hsource broken.sides broken.rollable.pos broken.rollable.le_256.2 t
      exact absurd (hfailed.symm.trans hdraw) nofun
  | overflow _ hthrown hkeep hlarge =>
      have hle := hthrown.total_selected_le hsource.honest hgave hkeep
      exact absurd (Nat.lt_of_le_of_lt hle hfits) (Nat.not_lt.mpr hlarge)

theorem ok_of_sound (hsource : engine.source.InRange) (hfits : spec.highest < totalBound)
    (hsound : ∀ d ∈ spec.groups, d.refusal? = none) :
    ∃ outcome s', (engine.rollSpec spec type bias).run s = .ok outcome s' := by
  cases hrun : (engine.rollSpec spec type bias).run s with
  | ok outcome s' => exact ⟨outcome, s', rfl⟩
  | error error s' => exact absurd hsound (refused_of_error hsource hfits hrun).not_sound

theorem ok_iff_sound (hsource : engine.source.InRange) :
    (∃ outcome s', (engine.rollSpec spec type bias).run s = .ok outcome s') ↔
      spec.highest < totalBound ∧ ∀ d ∈ spec.groups, d.refusal? = none := by
  constructor
  · rintro ⟨outcome, s', hrun⟩
    obtain ⟨hrolled, _⟩ := specRolled_of_ok hrun
    exact ⟨hrolled.fits, hrolled.sound⟩
  · rintro ⟨hfits, hsound⟩
    exact ok_of_sound hsource hfits hsound

/-- The first group that cannot be rolled decides. -/
theorem error_of_refused (hsource : engine.source.InRange) (hfits : spec.highest < totalBound)
    {before after : List Dice} {dice : Dice} {refusal : DiceError}
    (hgroups : spec.groups = before ++ dice :: after)
    (hbefore : ∀ d ∈ before, d.refusal? = none) (hdice : dice.refusal? = some refusal) :
    ∃ s', (engine.rollSpec spec type bias).run s = .error refusal s' ∧
      engine.source.Gave s ((engine.logged.rollSpec spec type bias).drawn s) s' ∧
      ∃ values, Thrown bias (sidesOf (spec.shape.perPlace type) before)
        ((engine.logged.rollSpec spec type bias).drawn s) values := by
  cases hrun : (engine.rollSpec spec type bias).run s with
  | ok outcome s' =>
      obtain ⟨hrolled, _⟩ := specRolled_of_ok hrun
      have hnone := hrolled.sound dice
        (by rw [hgroups]; exact List.mem_append_right _ List.mem_cons_self)
      exact absurd (hnone.symm.trans hdice) nofun
  | error error s' =>
      obtain ⟨_, hgave⟩ := specFailure_of_error hrun
      obtain ⟨before', dice', after', values, hgroups', hbefore', hdice', hthrown⟩ :=
        refused_of_error hsource hfits hrun
      -- both are what stands before the first refusal
      have heq : before' ++ dice' :: after' = before ++ dice :: after :=
        hgroups'.symm.trans hgroups
      have hfront : before' = before := by
        rw [← takeWhile_sound_append hbefore' hdice', heq, takeWhile_sound_append hbefore hdice]
      subst hfront
      obtain ⟨rfl, rfl⟩ := List.cons.inj (List.append_cancel_left heq)
      cases hdice.symm.trans hdice'
      exact ⟨s', rfl, hgave, values, hthrown⟩

theorem rollSpec_of_tooLarge (h : totalBound ≤ spec.highest) :
    engine.rollSpec spec type bias = throw .overflow :=
  if_pos h

end Verdict

theorem sidesOf_perPlace {shape : Shape} (type : RollType) {before after : List Dice}
    {dice : Dice} (h : shape.groups = before ++ dice :: after) :
    sidesOf (shape.perPlace type) before = sidesOf 1 before ∧
      (shape.isComplex = false → before = []) := by
  cases shape with
  | complex groups => exact ⟨rfl, fun hsimple => Bool.noConfusion hsimple⟩
  | simple d =>
      have hnil : before = [] := by
        cases before with
        | nil => rfl
        | cons b before => exact absurd (List.cons.inj h).2 (by simp)
      subst hnil
      exact ⟨rfl, fun _ => rfl⟩

theorem roll_ok_iff (engine : Engine σ) (text : String) (type : RollType) (bias : Bias) (s : σ) :
    (∃ outcome s', (engine.roll text type bias).run s = .ok outcome s') ↔
      ∃ spec, parse engine.limits text = .ok spec ∧
        ∃ outcome s', (engine.rollSpec spec type bias).run s = .ok outcome s' := by
  simp only [roll_eq_ok_iff]
  constructor
  · rintro ⟨outcome, s', spec, hspec, hrun⟩
    exact ⟨spec, hspec, outcome, s', hrun⟩
  · rintro ⟨spec, hspec, outcome, s', hrun⟩
    exact ⟨outcome, s', spec, hspec, hrun⟩

/-- With a source within range the dice alone decide how a roll ends and
which dice are thrown. -/
theorem rollSpec_verdict (engine : Engine σ) (hsource : engine.source.InRange) (spec : Spec)
    (type : RollType) (bias : Bias) (s : σ) :
    (2 ^ 32 ≤ spec.highest →
      (engine.rollSpec spec type bias).run s = .error .overflow s ∧
      (engine.logged.rollSpec spec type bias).drawn s = []) ∧
    (spec.highest < 2 ^ 32 → ∀ before dice after refusal,
      spec.groups = before ++ dice :: after → (∀ d ∈ before, d.refusal? = none) →
      dice.refusal? = some refusal →
        (∃ s', (engine.rollSpec spec type bias).run s = .error refusal s' ∧
          engine.source.Gave s ((engine.logged.rollSpec spec type bias).drawn s) s') ∧
        (spec.shape.isComplex = false →
          (engine.logged.rollSpec spec type bias).drawn s = []) ∧
        ∃ throws : List (Throw bias),
          (engine.logged.rollSpec spec type bias).drawn s = throws.flatMap Throw.draws ∧
          throws.map Throw.sides = before.flatMap fun d => List.replicate d.count d.sides) ∧
    (spec.highest < 2 ^ 32 → (∀ d ∈ spec.groups, d.refusal? = none) →
      (∃ outcome s', (engine.rollSpec spec type bias).run s = .ok outcome s' ∧
        engine.source.Gave s ((engine.logged.rollSpec spec type bias).drawn s) s') ∧
      ∃ throws : List (Throw bias),
        (engine.logged.rollSpec spec type bias).drawn s = throws.flatMap Throw.draws ∧
        throws.map Throw.sides = spec.shape.sides type) ∧
    ((∃ outcome s', (engine.rollSpec spec type bias).run s = .ok outcome s') ↔
      spec.highest < 2 ^ 32 ∧ ∀ d ∈ spec.groups, d.refusal? = none) ∧
    ∀ text, (∃ outcome s', (engine.roll text type bias).run s = .ok outcome s') ↔
      ∃ read, parse engine.limits text = .ok read ∧
        read.highest < 2 ^ 32 ∧ ∀ d ∈ read.groups, d.refusal? = none := by
  refine ⟨?_, ?_, ?_, ok_iff_sound hsource, ?_⟩
  · intro hlarge
    rw [rollSpec_of_tooLarge hlarge, rollSpec_of_tooLarge hlarge]
    exact ⟨rfl, rfl⟩
  · intro hfits before dice after refusal hgroups hbefore hdice
    obtain ⟨s', hrun, hgave, values, throws, hsides, _, hdraws⟩ :=
      error_of_refused hsource hfits hgroups hbefore hdice
    obtain ⟨hone, hsimple⟩ := sidesOf_perPlace type hgroups
    rw [hone] at hsides
    refine ⟨⟨s', hrun, hgave⟩, ?_, throws, hdraws, ?_⟩
    · intro h
      rw [hsimple h] at hsides
      rw [hdraws, List.map_eq_nil_iff.mp hsides]
      rfl
    · simpa only [sidesOf, Nat.one_mul] using hsides
  · intro hfits hsound
    obtain ⟨outcome, s', hrun⟩ := ok_of_sound hsource hfits hsound
    obtain ⟨hrolled, hgave⟩ := specRolled_of_ok hrun
    obtain ⟨throws, hsides, _, hdraws⟩ := hrolled.thrown
    exact ⟨⟨outcome, s', hrun, hgave⟩, throws, hdraws, hsides⟩
  · intro text
    rw [roll_ok_iff]
    simp only [ok_iff_sound hsource]
    rfl

/-! ## Sources within range -/

theorem highest_draw {max : Nat} (hpos : 1 ≤ max) (hmax : max ≤ 256) (s : Unit) :
    Source.highest.draw max s = .ok max s := by
  simp only [Source.highest]
  rw [if_pos ⟨hpos, hmax⟩]
  rfl

theorem highest_inRange : Source.highest.InRange := by
  intro max hpos hmax s
  exact ⟨max, s, highest_draw hpos hmax s, hpos, Nat.le_refl max⟩

theorem uniformInt_honest (supply : ByteSupply σ) {max value : Nat} (hpos : 1 ≤ max)
    (hmax : max ≤ 256) {s s' : σ} (h : uniformInt supply max s = .ok value s') :
    1 ≤ value ∧ value ≤ max := by
  rw [uniformInt, dif_pos ⟨hpos, hmax⟩] at h
  split at h
  · cases h
    exact ⟨Nat.le_refl 1, hpos⟩
  · obtain ⟨byte, t, _, hpure⟩ := run_bind_eq_ok h
    cases hpure
    exact ⟨Nat.le_add_left 1 _, Nat.mod_lt _ hpos⟩

theorem bytes_honest : Source.bytes.Honest := by
  intro max hpos hmax bytes value bytes' hdraw
  exact uniformInt_honest (fun bound _ => firstBelow bound) hpos hmax hdraw

theorem uniformInt_inRange (next : (bound : Nat) → 0 < bound → σ → UInt8 × σ) {max : Nat}
    (hpos : 1 ≤ max) (hmax : max ≤ 256) (s : σ) :
    ∃ value s', uniformInt (fun bound pos s =>
        let (byte, s) := next bound pos s
        .ok byte s) max s = .ok value s' ∧ 1 ≤ value ∧ value ≤ max := by
  unfold uniformInt
  rw [dif_pos ⟨hpos, hmax⟩]
  split
  · exact ⟨1, s, rfl, Nat.le_refl 1, hpos⟩
  · exact ⟨_, _, rfl, Nat.le_add_left 1 _, Nat.mod_lt _ hpos⟩

theorem seeded_inRange : Source.InRange Source.seeded := by
  intro max hpos hmax word
  exact uniformInt_inRange Wyrand.firstBelow hpos hmax word

/-- Three groups, of which the second has no dice, and the third has dice
with one side. -/
def noDiceAmid : Spec :=
  ⟨.complex [⟨1, 6⟩, ⟨0, 6⟩, ⟨1, 1⟩], 0, "1d6+0d6+1d1"⟩

/-- The first group is rolled and the second ends the roll. -/
theorem rollSpec_verdict_no_dice :
    (∃ s', (Engine.rollSpec ⟨.seeded, default⟩ noDiceAmid .normal .lucky).run 42 =
        .error .invalidCount s') ∧
      (∃ throws : List (Throw .lucky),
        (Engine.rollSpec (Engine.logged ⟨.seeded, default⟩) noDiceAmid .normal .lucky).drawn 42 =
          throws.flatMap Throw.draws ∧ throws.map Throw.sides = [6]) ∧
      ∃ outcome s', (Engine.rollSpec ⟨.highest, default⟩ twoDice .advantage .lucky).run () =
        .ok outcome s' := by
  refine ⟨?_, ?_, ?_⟩
  · obtain ⟨⟨s', hrun, _⟩, _⟩ :=
      (rollSpec_verdict ⟨.seeded, default⟩ seeded_inRange noDiceAmid .normal .lucky 42).2.1
        (by decide) [⟨1, 6⟩] ⟨0, 6⟩ [⟨1, 1⟩] .invalidCount rfl (by decide) rfl
    exact ⟨s', hrun⟩
  · obtain ⟨_, _, throws, hdraws, hsides⟩ :=
      (rollSpec_verdict ⟨.seeded, default⟩ seeded_inRange noDiceAmid .normal .lucky 42).2.1
        (by decide) [⟨1, 6⟩] ⟨0, 6⟩ [⟨1, 1⟩] .invalidCount rfl (by decide) rfl
    exact ⟨throws, hdraws, hsides⟩
  · exact (rollSpec_verdict ⟨.highest, default⟩ highest_inRange twoDice .advantage .lucky
      ()).2.2.2.1.mpr ⟨by decide, by decide⟩

end DiceRoller
