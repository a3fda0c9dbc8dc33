/-
# Fair dice, and what luck weighs

Rolls on byte strings are compared face by face.  Take the dice of a roll
and give each of them a face, in two ways.  If every die that is rolled
again on its second face is rolled again on its first one too, then no more
byte strings lead to the first faces than to the second
(`rollEach_lighter`).  It is proved from the last draw to the first:

| | |
| :-- | :-- |
| no reroll left | the last value stands, and one face of all is the right one |
| a reroll left | faces that are rolled again lead to a draw with one reroll less; of the others one at most is the right one |
| dice in a row | the strings that are left for the other dice are the property that a die ends in |

If the bias treats the two ways alike the inequality goes both ways, so the
counts are equal.  A fair die is never rolled again, and all its faces are
alike.

A roll of a spec is such a row of dice.  Its last check does not change
that: the bytes give faces only, and those never total too much.
-/
import DiceRoller.Proofs.Fairness.ByteStrings
import DiceRoller.Proofs.Rolling.Verdict

namespace DiceRoller

open Rolling

variable {σ : Type}

/-! ## One die -/

theorem sum_ways_face (faces : Finset Nat) (v : Nat) (P : List UInt8 → Prop) (n : Nat) :
    ∑ face ∈ faces, ways (fun bytes => face = v ∧ P bytes) n =
      if v ∈ faces then ways P n else 0 := by
  simp only [ways_and_left]
  exact Finset.sum_ite_eq' faces v fun _ => ways P n

theorem sum_ways_reroll (condition : Condition) (sides limit v : Nat) (P : List UInt8 → Prop)
    (n : Nat) :
    ∑ face ∈ Finset.Icc 1 sides, ways (Meets
        (Source.bytes.reroll condition sides (limit + 1) face) fun a bytes => a = v ∧ P bytes) n =
      ((Finset.Icc 1 sides).filter fun face => condition.holds face = true).card *
          ways (Meets (Source.bytes.draw sides) fun face =>
            Meets (Source.bytes.reroll condition sides limit face)
              fun a bytes => a = v ∧ P bytes) n +
        if v ∈ (Finset.Icc 1 sides).filter fun face => ¬ condition.holds face = true then
          ways P n else 0 := by
  rw [← Finset.sum_filter_add_sum_filter_not (Finset.Icc 1 sides)
    fun face => condition.holds face = true]
  refine congrArg₂ (· + ·) ?_ ?_
  · rw [← smul_eq_mul, ← Finset.sum_const]
    refine Finset.sum_congr rfl fun face hface => ?_
    rw [Source.reroll, if_pos (Finset.mem_filter.mp hface).2, meets_bind]
  · rw [← sum_ways_face]
    refine Finset.sum_congr rfl fun face hface => ?_
    rw [Source.reroll, if_neg (Finset.mem_filter.mp hface).2, meets_pure]

section Die

variable {sides v w : Nat} {P Q : List UInt8 → Prop} (hv : v ∈ Finset.Icc 1 sides)
  (hw : w ∈ Finset.Icc 1 sides) (hPQ : Lighter P Q)
include hv hw hPQ

theorem reroll_lighter (hsides : Rollable sides) {condition : Condition}
    (hkeep : condition.holds w = true → condition.holds v = true) (limit n : Nat) :
    ∑ face ∈ Finset.Icc 1 sides, ways (Meets
        (Source.bytes.reroll condition sides limit face) fun a bytes => a = v ∧ P bytes) n ≤
      ∑ face ∈ Finset.Icc 1 sides, ways (Meets
        (Source.bytes.reroll condition sides limit face) fun a bytes => a = w ∧ Q bytes) n := by
  induction limit generalizing n with
  | zero =>
      simp only [Source.reroll, meets_pure]
      rw [sum_ways_face, sum_ways_face, if_pos hv, if_pos hw]
      exact hPQ n
  | succ limit ih =>
      rw [sum_ways_reroll, sum_ways_reroll]
      refine Nat.add_le_add (Nat.mul_le_mul_left _ (draw_lighter hsides.le_256 ih n)) ?_
      split
      · next hstands =>
          have hholds : ¬ condition.holds w = true :=
            fun h => (Finset.mem_filter.mp hstands).2 (hkeep h)
          rw [if_pos (Finset.mem_filter.mpr ⟨hw, hholds⟩)]
          exact hPQ n
      · exact Nat.zero_le _

theorem rollDie_lighter (hsides : Rollable sides) {bias : Bias}
    (hkeep : bias.rerolls sides w = true → bias.rerolls sides v = true) :
    Lighter (Meets (Source.bytes.rollDie sides bias) fun a bytes => a = v ∧ P bytes)
      (Meets (Source.bytes.rollDie sides bias) fun a bytes => a = w ∧ Q bytes) := by
  rw [Source.rollDie, if_pos hsides, meets_bind, meets_bind]
  refine draw_lighter hsides.le_256 fun n => ?_
  simp only [Source.settle]
  cases hcondition : bias.rerollCondition? sides with
  | none =>
      simp only [meets_pure]
      rw [sum_ways_face, sum_ways_face, if_pos hv, if_pos hw]
      exact hPQ n
  | some condition =>
      rw [Bias.rerolls_of_condition hcondition, Bias.rerolls_of_condition hcondition] at hkeep
      exact reroll_lighter hv hw hPQ hsides hkeep rerollLimit n

end Die

/-! ## Dice in a row -/

theorem rollEach_meets_cons {source : Source σ} {bias : Bias} {sides v : Nat}
    {dice vs : List Nat} :
    Meets (source.rollEach bias (sides :: dice)) (fun values _ => values = v :: vs) =
      Meets (source.rollDie sides bias) fun value s =>
        value = v ∧ Meets (source.rollEach bias dice) (fun values _ => values = vs) s := by
  have hcons : Meets (source.rollEach bias (sides :: dice))
      (fun values _ => values = v :: vs ∧ True) = _ := meets_mapM_cons
  simp only [and_true] at hcons
  exact hcons

def Faces (dice faces : List Nat) : Prop :=
  List.Forall₂ (fun sides face => face ∈ Finset.Icc 1 sides) dice faces

instance (dice faces : List Nat) : Decidable (Faces dice faces) := by
  unfold Faces
  infer_instance

/-- No die is rolled again on its second face unless it is on its first. -/
theorem rollEach_lighter {bias : Bias} {dice vs ws : List Nat} (hdice : ∀ n ∈ dice, Rollable n)
    (hvs : Faces dice vs) (hws : Faces dice ws)
    (hkeep : ∀ i sides v w : Nat, dice[i]? = some sides → vs[i]? = some v → ws[i]? = some w →
      bias.rerolls sides w = true → bias.rerolls sides v = true) :
    Lighter (Meets (Source.bytes.rollEach bias dice) fun values _ => values = vs)
      (Meets (Source.bytes.rollEach bias dice) fun values _ => values = ws) := by
  induction hvs generalizing ws with
  | nil =>
      cases hws
      exact fun n => Nat.le_refl _
  | cons hv _ ih =>
      cases hws with
      | cons hw hws =>
          obtain ⟨hsides, hdice⟩ := List.forall_mem_cons.mp hdice
          rw [rollEach_meets_cons, rollEach_meets_cons]
          refine rollDie_lighter hv hw (ih hdice hws fun i => hkeep (i + 1)) hsides ?_
          exact hkeep 0 _ _ _ rfl rfl rfl

/-! ## Specs -/

theorem Rolls.eq_of_values_eq {v w : Rolls} (hpaired : v.isPaired = w.isPaired)
    (h : v.values = w.values) : v = w := by
  rw [← v.ofValues_values, hpaired, h, w.ofValues_values]

section Spec

variable {engine : Engine σ} (hsource : engine.source.Honest) {spec : Spec} {type : RollType}
  {bias : Bias} (hfits : spec.highest < totalBound)
include hsource hfits

theorem rollSpec_meets_values (hsound : ∀ d ∈ spec.shape.groups, d.refusal? = none) {v : Rolls}
    (hpaired : v.isPaired = (spec.shape.keep? type).isSome) (s : σ) :
    Meets (engine.rollSpec spec type bias) (fun outcome _ => outcome.rolls = v) s ↔
      Meets (engine.source.rollEach bias (spec.shape.sides type))
        (fun values _ => values = v.values) s := by
  have hbound := Spec.highest_lt_of_mem hfits
  have hvalues := rollShape_values engine.source type bias spec.shape hbound
  rw [rollGroups_of_sound engine.source bias _ hsound] at hvalues
  -- the check of the total never fails
  rw [rollSpec_eq_record hsource hfits, Shape.sides, ← hvalues, map_eq_pure_bind, meets_bind,
    map_eq_pure_bind, meets_bind]
  simp only [meets_pure]
  constructor
  · rintro ⟨hand, s', hrun, rfl⟩
    exact ⟨hand, s', hrun, rfl⟩
  · rintro ⟨hand, s', hrun, hrolls⟩
    have hpairs : hand.rolls.isPaired = v.isPaired := by
      rw [Hand.isPaired_rolls, rollShape_keep? hrun, hpaired]
    exact ⟨hand, s', hrun, Rolls.eq_of_values_eq hpairs hrolls⟩

end Spec

/-! ## Rolls on byte strings -/

/-- Raw values that the dice of a shape can show: a face for each die, in
pairs if the dice are thrown in pairs. -/
structure Rolls.Possible (type : RollType) (shape : Shape) (rolls : Rolls) : Prop where
  paired : rolls.isPaired = (shape.keep? type).isSome
  faces : Faces (shape.sides type) rolls.values

/-- The number of byte strings of a length on which a spec is rolled with
these raw values. -/
noncomputable def Spec.frequency (spec : Spec) (limits : Limits) (type : RollType)
    (bias : Bias) (rolls : Rolls) (n : Nat) : Nat :=
  ways (Meets (Engine.rollSpec ⟨.bytes, limits⟩ spec type bias)
    fun outcome _ => outcome.rolls = rolls) n

section Bytes

variable (limits : Limits) {spec : Spec}
  (hdice : ∀ d ∈ spec.groups, 1 ≤ d.count ∧ Rollable d.sides)
  (hfits : spec.highest < 2 ^ 32) {type : RollType} {bias : Bias} {v w : Rolls}
  (hv : v.Possible type spec.shape) (hw : w.Possible type spec.shape)
include hdice hfits hv hw

/-- If no die is rolled again on its face in `w` unless it is on its face in
`v`, then `w` comes up at least as often. -/
theorem frequency_le (n : Nat)
    (hkeep : ∀ i sides x y : Nat, (spec.shape.sides type)[i]? = some sides →
      v.values[i]? = some x → w.values[i]? = some y →
        bias.rerolls sides y = true → bias.rerolls sides x = true) :
    spec.frequency limits type bias v n ≤ spec.frequency limits type bias w n := by
  have hsound : ∀ d ∈ spec.shape.groups, d.refusal? = none := sound_of_rollable hdice
  rw [Spec.frequency, Spec.frequency,
    ways_congr (rollSpec_meets_values bytes_honest hfits hsound hv.paired),
    ways_congr (rollSpec_meets_values bytes_honest hfits hsound hw.paired)]
  exact rollEach_lighter (fun _ => rollable_of_mem_sidesOf hsound) hv.faces hw.faces hkeep n

/-- Faces that the bias treats alike come up equally often, and a face that
it keeps at least as often as one that it rolls again. -/
theorem rollSpec_fair (n : Nat) :
    (List.zipWith bias.rerolls (spec.shape.sides type) v.values =
        List.zipWith bias.rerolls (spec.shape.sides type) w.values →
      spec.frequency limits type bias v n = spec.frequency limits type bias w n) ∧
    (bias = .fair →
      spec.frequency limits type bias v n = spec.frequency limits type bias w n) ∧
    (∀ i sides old new : Nat, (spec.shape.sides type)[i]? = some sides →
      v.values[i]? = some old → w.values = v.values.set i new →
        bias.rerolls sides old = true → bias.rerolls sides new = false →
      spec.frequency limits type bias v n ≤ spec.frequency limits type bias w n) := by
  refine ⟨?_, ?_, ?_⟩
  · intro hsame
    have hrerolls (i sides x y : Nat) (hi : (spec.shape.sides type)[i]? = some sides)
        (hx : v.values[i]? = some x) (hy : w.values[i]? = some y) :
        bias.rerolls sides x = bias.rerolls sides y := by
      have hat := congrArg (·[i]?) hsame
      simpa [List.getElem?_zipWith, hi, hx, hy] using hat
    refine Nat.le_antisymm (frequency_le limits hdice hfits hv hw n ?_)
      (frequency_le limits hdice hfits hw hv n ?_)
    · intro i sides x y hi hx hy hagain
      rw [hrerolls i sides x y hi hx hy]
      exact hagain
    · intro i sides y x hi hy hx hagain
      rw [← hrerolls i sides x y hi hx hy]
      exact hagain
  · rintro rfl
    -- no fair die is rolled again
    refine Nat.le_antisymm (frequency_le limits hdice hfits hv hw n ?_)
      (frequency_le limits hdice hfits hw hv n ?_)
    · intro _ _ _ _ _ _ _ hagain
      exact hagain
    · intro _ _ _ _ _ _ _ hagain
      exact hagain
  · intro i sides old new hi hold hset holdagain _
    refine frequency_le limits hdice hfits hv hw n ?_
    intro j sides' x y hj hx hy hagain
    rw [hset, List.getElem?_set] at hy
    split at hy
    · next hij =>
        subst hij
        cases hi.symm.trans hj
        cases hold.symm.trans hx
        exact holdagain
    · cases hx.symm.trans hy
      exact hagain

end Bytes

/-- Two lucky dice with six sides, thrown with advantage: two faces of four
are rolled again, and it does not matter which low ones they are. -/
theorem rollSpec_fair_two_lucky_pairs :
    twoDice.frequency default .advantage .lucky (.paired [(2, 5), (1, 6)]) 9 =
        twoDice.frequency default .advantage .lucky (.paired [(3, 6), (2, 4)]) 9 ∧
      twoDice.frequency default .advantage .lucky (.paired [(2, 5), (1, 6)]) 9 ≤
        twoDice.frequency default .advantage .lucky (.paired [(4, 5), (1, 6)]) 9 := by
  have hv : Rolls.Possible .advantage twoDice.shape (.paired [(2, 5), (1, 6)]) :=
    ⟨rfl, by decide⟩
  have hw : Rolls.Possible .advantage twoDice.shape (.paired [(3, 6), (2, 4)]) :=
    ⟨rfl, by decide⟩
  have hu : Rolls.Possible .advantage twoDice.shape (.paired [(4, 5), (1, 6)]) :=
    ⟨rfl, by decide⟩
  refine ⟨?_, ?_⟩
  · exact (rollSpec_fair default (by decide) (by decide) hv hw 9).1 (by decide)
  · exact (rollSpec_fair default (by decide) (by decide) hv hu 9).2.2 0 6 2 4 (by decide)
      (by decide) (by decide) (by decide) (by decide)

end DiceRoller
