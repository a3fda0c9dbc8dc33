/-
# How low and how high a roll can go

With an honest source every raw value is a face of its die, and so is every
value that counts.  So a roll totals between one for each die asked for
(`Spec.lowest`) and all sides (`Spec.highest`).

Neither bound can be improved.  A source that always gives the same answer
to the same request (`Source.Steady`) leaves nothing open: every value is
that answer, and all draws of a throw are alike.  A die whose bias accepts
the answer is drawn once.  A die whose bias does not is rolled again until
it may no longer be, and then the answer stands all the same
(`Throw.draws_of_steady`).

| answer | total | rolled again |
| :-- | :-- | :-- |
| the highest face | `Spec.highest` | unlucky dice, a hundred times each |
| one | `Spec.lowest` | lucky dice, a hundred times each |
-/
import DiceRoller.Proofs.Biased.Thresholds

namespace DiceRoller

variable {σ : Type}

/-- The total when every die shows a one. -/
def Spec.lowest (spec : Spec) : Nat :=
  total (spec.groups.map Dice.count)

/-! ## Bounds -/

theorem length_le_total_of_faces {sides values : List Nat} (h : List.Forall₂ IsFace sides values) :
    sides.length ≤ total values := by
  induction h with
  | nil => exact Nat.le_refl 0
  | cons hface _ ih =>
      rw [List.length_cons, total_cons, Nat.add_comm]
      exact Nat.add_le_add hface.1 ih

theorem Spec.length_sidesOf_one (spec : Spec) : (sidesOf 1 spec.groups).length = spec.lowest := by
  rw [length_sidesOf, Nat.one_mul, lowest]

theorem faces_of_ok {engine : Engine σ} (hsource : engine.source.Honest) {spec : Spec}
    {type : RollType} {bias : Bias} {s s' : σ} {outcome : Outcome}
    (hrun : (engine.rollSpec spec type bias).run s = .ok outcome s') :
    List.Forall₂ IsFace (spec.shape.sides type) outcome.rolls.values ∧
      List.Forall₂ IsFace (sidesOf 1 spec.groups) outcome.selected := by
  obtain ⟨hrolled, hgave⟩ := specRolled_of_ok hrun
  obtain ⟨hselection, _⟩ := selection_of_ok hrun
  have hfaces := hrolled.thrown.faces hsource hgave
  exact ⟨hfaces, hselection.forall₂ hfaces⟩

/-! ## Steady sources -/

/-- To the same request the source always gives the same answer, and it is
a face of the die. -/
structure Source.Steady (source : Source σ) (answer : Nat → Nat) : Prop where
  draw : ∀ max, 1 ≤ max → max ≤ 256 → ∀ s, ∃ s', source.draw max s = .ok (answer max) s'
  face : ∀ max, 1 ≤ max → IsFace max (answer max)

/-- All that is drawn for a die that always shows the same face. -/
def steadyDraws (bias : Bias) (answer : Nat → Nat) (sides : Nat) : List Draw :=
  drawsOf sides
    (List.replicate (if bias.rerolls sides (answer sides) then rerollLimit + 1 else 1)
      (answer sides))

section Steady

variable {source : Source σ} {answer : Nat → Nat}

theorem Source.Steady.inRange (h : source.Steady answer) : source.InRange := by
  intro max hpos hmax s
  obtain ⟨s', hdraw⟩ := h.draw max hpos hmax s
  exact ⟨answer max, s', hdraw, h.face max hpos⟩

namespace Throw

variable {bias : Bias} {throws : List (Throw bias)} {throw : Throw bias} {s s' : σ}

theorem eq_answer_of_mem (h : source.Steady answer)
    (hgave : source.Gave s (throws.flatMap draws) s') (hthrow : throw ∈ throws) {value : Nat}
    (hvalue : value ∈ throw.rejected ++ [throw.value]) : value = answer throw.sides := by
  obtain ⟨t, t', hgiven⟩ := throw.exists_draw hgave hthrow hvalue
  obtain ⟨t'', hanswer⟩ := h.draw throw.sides throw.rollable.pos throw.rollable.le_256.2 t
  cases hgiven.symm.trans hanswer
  rfl

theorem value_of_steady (h : source.Steady answer)
    (hgave : source.Gave s (throws.flatMap draws) s') (hthrow : throw ∈ throws) :
    throw.value = answer throw.sides :=
  eq_answer_of_mem h hgave hthrow (List.mem_append_right throw.rejected List.mem_cons_self)

/-- Since all answers are alike, a die is rolled again never or for as long
as it may be. -/
theorem draws_of_steady (h : source.Steady answer)
    (hgave : source.Gave s (throws.flatMap draws) s') (hthrow : throw ∈ throws) :
    throw.draws = steadyDraws bias answer throw.sides := by
  have hanswer (value : Nat) (hvalue : value ∈ throw.rejected ++ [throw.value]) :
      value = answer throw.sides := eq_answer_of_mem h hgave hthrow hvalue
  have hlength : (throw.rejected ++ [throw.value]).length =
      if bias.rerolls throw.sides (answer throw.sides) then rerollLimit + 1 else 1 := by
    rw [List.length_append, List.length_singleton]
    split
    · next hrerolls =>
        rw [← value_of_steady h hgave hthrow] at hrerolls
        rw [throw.length_of_rerolls hrerolls]
    · next hkept =>
        have hnil : throw.rejected = [] := by
          refine List.eq_nil_iff_forall_not_mem.mpr fun value hvalue => hkept ?_
          rw [← hanswer value (List.mem_append_left _ hvalue)]
          exact throw.rerolls_of_mem value hvalue
        rw [hnil]
        rfl
  rw [draws, steadyDraws, ← hlength, ← List.eq_replicate_of_mem hanswer]

end Throw

/-- A steady source leaves nothing open. -/
theorem rollSpec_of_steady (engine : Engine σ) (h : engine.source.Steady answer) {spec : Spec}
    (hfits : spec.highest < totalBound) (hsound : ∀ d ∈ spec.groups, d.refusal? = none)
    (type : RollType) (bias : Bias) (s : σ) :
    ∃ outcome s', (engine.rollSpec spec type bias).run s = .ok outcome s' ∧
      outcome.final = total ((sidesOf 1 spec.groups).map answer) + spec.modifier ∧
      (engine.logged.rollSpec spec type bias).drawn s =
        (spec.shape.sides type).flatMap (steadyDraws bias answer) := by
  obtain ⟨outcome, s', hrun⟩ :
      ∃ outcome s', (engine.rollSpec spec type bias).run s = .ok outcome s' :=
    ok_of_sound h.inRange hfits hsound
  obtain ⟨hrolled, hgave⟩ := specRolled_of_ok hrun
  obtain ⟨hselection, _, hfinal⟩ := selection_of_ok hrun
  obtain ⟨throws, hsides, hvalues, hdraws⟩ := hrolled.thrown
  rw [hdraws] at hgave
  have hanswers : outcome.rolls.values = (spec.shape.sides type).map answer := by
    rw [← hsides, ← hvalues, List.map_map]
    exact List.map_congr_left fun throw hthrow => Throw.value_of_steady h hgave hthrow
  have hselected : outcome.selected = (sidesOf 1 spec.groups).map answer :=
    hselection.eq_map hanswers
  refine ⟨outcome, s', hrun, by rw [hfinal, hselected], ?_⟩
  rw [hdraws, ← hsides, List.flatMap_map]
  exact List.flatMap_congr fun throw hthrow => Throw.draws_of_steady h hgave hthrow

end Steady

/-! ## The highest face and the lowest -/

theorem highest_steady : Source.highest.Steady id where
  draw := fun _ hpos hmax s => ⟨s, highest_draw hpos hmax s⟩
  face := fun max hpos => ⟨hpos, Nat.le_refl max⟩

theorem constant_one_steady : (Source.constant 1).Steady fun _ => 1 where
  draw := fun _ _ _ s => ⟨s, rfl⟩
  face := fun _ hpos => ⟨Nat.le_refl 1, hpos⟩

/-- The result of a roll with an honest source lies between one for each die
and all sides, and both bounds are attained by every spec that can be
rolled, whatever the roll type and the bias. -/
theorem rollSpec_bounds (spec : Spec) (type : RollType) (bias : Bias) :
    (∀ (σ : Type) (engine : Engine σ), engine.source.Honest → ∀ s outcome s',
      (engine.rollSpec spec type bias).run s = .ok outcome s' →
        List.Forall₂ IsFace (spec.shape.sides type) outcome.rolls.values ∧
        List.Forall₂ IsFace (sidesOf 1 spec.groups) outcome.selected ∧
        spec.lowest + spec.modifier ≤ outcome.final ∧
        outcome.final ≤ spec.highest + spec.modifier) ∧
    (spec.highest < 2 ^ 32 → (∀ d ∈ spec.groups, 1 ≤ d.count ∧ Rollable d.sides) →
      ∀ limits,
        (∃ outcome,
          (Engine.rollSpec ⟨.highest, limits⟩ spec type bias).run () = .ok outcome () ∧
          outcome.final = spec.highest + spec.modifier ∧
          (Engine.rollSpec (Engine.logged ⟨.highest, limits⟩) spec type bias).drawn () =
            (spec.shape.sides type).flatMap fun n =>
              drawsOf n (List.replicate (if bias.isUnlucky then 101 else 1) n)) ∧
        ∃ outcome,
          (Engine.rollSpec ⟨.constant 1, limits⟩ spec type bias).run () = .ok outcome () ∧
          outcome.final = spec.lowest + spec.modifier ∧
          (Engine.rollSpec (Engine.logged ⟨.constant 1, limits⟩) spec type bias).drawn () =
            (spec.shape.sides type).flatMap fun n =>
              drawsOf n (List.replicate (if bias.isLucky then 101 else 1) 1)) := by
  refine ⟨?_, ?_⟩
  · intro σ engine hsource s outcome s' hrun
    obtain ⟨hfaces, hselected⟩ := faces_of_ok hsource hrun
    obtain ⟨_, _, hfinal⟩ := selection_of_ok hrun
    have hlow : spec.lowest ≤ total outcome.selected := by
      rw [← spec.length_sidesOf_one]
      exact length_le_total_of_faces hselected
    have hhigh : total outcome.selected ≤ spec.highest := by
      rw [Spec.highest, ← total_sidesOf_one]
      exact total_le_of_faces hselected
    refine ⟨hfaces, hselected, ?_, ?_⟩
    · rw [hfinal]
      omega
    · rw [hfinal]
      omega
  · intro hfits hdice limits
    have hsound : ∀ d ∈ spec.groups, d.refusal? = none := sound_of_rollable hdice
    have hrollable (n : Nat) (hn : n ∈ spec.shape.sides type) : Rollable n :=
      rollable_of_mem_sidesOf hsound hn
    constructor
    · obtain ⟨outcome, s', hrun, hfinal, hdrawn⟩ :=
        rollSpec_of_steady ⟨.highest, limits⟩ highest_steady hfits hsound type bias ()
      refine ⟨outcome, hrun, ?_, ?_⟩
      · rw [hfinal, List.map_id, total_sidesOf_one]
        rfl
      · rw [hdrawn]
        refine List.flatMap_congr fun n hn => ?_
        rw [steadyDraws, id, bias.rerolls_highest (hrollable n hn).1]
        rfl
    · obtain ⟨outcome, s', hrun, hfinal, hdrawn⟩ :=
        rollSpec_of_steady ⟨.constant 1, limits⟩ constant_one_steady hfits hsound type bias ()
      refine ⟨outcome, hrun, ?_, ?_⟩
      · rw [hfinal, List.map_const', total_replicate, Nat.mul_one, spec.length_sidesOf_one]
      · rw [hdrawn]
        refine List.flatMap_congr fun n hn => ?_
        rw [steadyDraws, bias.rerolls_one (hrollable n hn).1]
        rfl

def threeDice : Spec :=
  ⟨.complex [⟨2, 6⟩, ⟨1, 20⟩], -3, "2d6+1d20-3"⟩

/-- Bytes give some faces.  The highest ones come up even for unlucky dice,
and the lowest for lucky ones. -/
theorem rollSpec_bounds_three_dice :
    (∃ outcome, (Engine.rollSpec ⟨.bytes, default⟩ threeDice .advantage .fair).run [5, 3, 7] =
        .ok outcome [] ∧ outcome.rolls = .flat [6, 4, 8] ∧
      List.Forall₂ IsFace [6, 6, 20] outcome.selected ∧
      3 + -3 ≤ outcome.final ∧ outcome.final ≤ 32 + -3) ∧
    (∃ outcome, (Engine.rollSpec ⟨.highest, default⟩ threeDice .normal .unlucky).run () =
        .ok outcome () ∧ outcome.final = 32 + -3) ∧
    ∃ outcome, (Engine.rollSpec ⟨.constant 1, default⟩ threeDice .normal .lucky).run () =
        .ok outcome () ∧ outcome.final = 3 + -3 := by
  refine ⟨⟨_, rfl, rfl, ?_⟩, ?_, ?_⟩
  · obtain ⟨_, hselected, hlow, hhigh⟩ :=
      (rollSpec_bounds threeDice .advantage .fair).1 _ ⟨.bytes, default⟩ bytes_honest [5, 3, 7] _ _
        rfl
    exact ⟨hselected, hlow, hhigh⟩
  · obtain ⟨⟨outcome, hrun, hfinal, _⟩, _⟩ :=
      (rollSpec_bounds threeDice .normal .unlucky).2 (by decide) (by decide) default
    exact ⟨outcome, hrun, hfinal⟩
  · obtain ⟨_, outcome, hrun, hfinal, _⟩ :=
      (rollSpec_bounds threeDice .normal .lucky).2 (by decide) (by decide) default
    exact ⟨outcome, hrun, hfinal⟩

end DiceRoller
