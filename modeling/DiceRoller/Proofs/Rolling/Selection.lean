/-
# What counts, and what it comes to

Nothing is asked of a source here.  It may answer with any numbers, also
with such as no die shows, so what the dice could total at most says
nothing about what the values do total.

| | |
| :-- | :-- |
| what counts | one value for each die asked for: every raw value, or of each pair the higher or the lower one (`Selection`) |
| how it is added up | one value after the other, up to the first sum that is too large; this gives up only if the whole sum is too large (`runningTotal?_eq`) |
| what becomes of it | if all dice were rolled the sum alone decides: an outcome, or an overflow |

A `Selection` holds for the raw values and the values that count, whichever
branch of the roll they came from, and what is true of every raw value is
true of every value that counts (`Selection.forall₂`).
-/
import Mathlib.Data.List.Forall2
import DiceRoller.Proofs.Rolling.Ending

namespace DiceRoller

variable {σ α β : Type}

/-! ## Adding up -/

/-- Adds up the values from the first to the last, and gives up at the
first sum that is too large. -/
def runningTotal? (values : List Nat) : Option Nat :=
  values.foldlM (fun sum value => bounded? (sum + value)) 0

theorem foldlM_bounded? (values : List Nat) {sum : Nat} (h : sum < totalBound) :
    values.foldlM (fun sum value => bounded? (sum + value)) sum =
      bounded? (sum + total values) := by
  induction values generalizing sum with
  | nil => exact (bounded?_eq_some.mpr ⟨h, rfl⟩).symm
  | cons value values ih =>
      rw [List.foldlM_cons, total_cons, ← Nat.add_assoc]
      cases hnext : bounded? (sum + value) with
      | some next =>
          obtain ⟨hlt, rfl⟩ := bounded?_eq_some.mp hnext
          exact ih hlt
      | none =>
          -- what is too large stays so
          have hlarge := bounded?_eq_none.mp hnext
          exact (bounded?_eq_none.mpr (Nat.le_add_right_of_le hlarge)).symm

/-- Nothing is given up before its time. -/
theorem runningTotal?_eq (values : List Nat) : runningTotal? values = total? values := by
  rw [runningTotal?, foldlM_bounded? values (by decide), Nat.zero_add, total?]

/-! ## How many values there are -/

theorem Shape.isSome_keep? (type : RollType) (shape : Shape) :
    (shape.keep? type).isSome = true ↔ shape.isComplex = false ∧ type ≠ .normal := by
  cases shape with
  | simple dice => cases type <;> simp [keep?, RollType.keep?, isComplex]
  | complex groups => simp [keep?, isComplex]

theorem length_sidesOf (perPlace : Nat) (groups : List Dice) :
    (sidesOf perPlace groups).length = perPlace * total (groups.map Dice.count) := by
  induction groups with
  | nil => rfl
  | cons dice groups ih =>
      rw [sidesOf_cons, List.length_append, List.length_replicate, ih, List.map_cons, total_cons,
        Nat.mul_add]

theorem Rolls.length_values (rolls : Rolls) :
    rolls.values.length = (if rolls.isPaired then 2 else 1) * rolls.length := by
  cases rolls with
  | flat values => exact (Nat.one_mul _).symm
  | paired pairs => simp [values, isPaired, length, Nat.mul_comm]

theorem Thrown.length_eq {bias : Bias} {sides values : List Nat} {draws : List Draw}
    (h : Thrown bias sides draws values) : values.length = sides.length := by
  obtain ⟨throws, rfl, rfl, _⟩ := h
  rw [List.length_map, List.length_map]

/-! ## The values that count -/

/-- The values that count among the raw values of a shape. -/
structure Selection (shape : Shape) (type : RollType) (rolls : Rolls) (selected : List Nat) :
    Prop where
  paired : rolls.isPaired = true ↔ shape.isComplex = false ∧ type ≠ .normal
  places : rolls.length = total (shape.groups.map Dice.count)
  length : selected.length = rolls.length
  flat : ∀ values, rolls = .flat values → selected = values
  higher : ∀ pairs, rolls = .paired pairs → type = .advantage →
    selected = pairs.map fun pair => max pair.1 pair.2
  lower : ∀ pairs, rolls = .paired pairs → type = .disadvantage →
    selected = pairs.map fun pair => min pair.1 pair.2

theorem Hand.length_rolls {type : RollType} {shape : Shape} {hand : Hand}
    (hkeep : hand.keep? = shape.keep? type)
    (hlength : hand.rolls.values.length = (shape.sides type).length) :
    hand.rolls.length = total (shape.groups.map Dice.count) := by
  rw [Rolls.length_values, Hand.isPaired_rolls, Shape.sides, length_sidesOf, Shape.perPlace,
    hkeep] at hlength
  cases hshape : shape.keep? type with
  | none =>
      rw [hshape] at hlength
      exact Nat.eq_of_mul_eq_mul_left Nat.one_pos hlength
  | some keep =>
      rw [hshape] at hlength
      exact Nat.eq_of_mul_eq_mul_left Nat.two_pos hlength

theorem Hand.selection {type : RollType} {shape : Shape} {hand : Hand}
    (hkeep : hand.keep? = shape.keep? type)
    (hlength : hand.rolls.values.length = (shape.sides type).length) :
    Selection shape type hand.rolls hand.selected := by
  have hpaired : hand.rolls.isPaired = true ↔ shape.isComplex = false ∧ type ≠ .normal := by
    rw [Hand.isPaired_rolls, hkeep]
    exact shape.isSome_keep? type
  have hplaces := Hand.length_rolls hkeep hlength
  cases hshape : shape.keep? type with
  | none =>
      have hflat := Hand.selected_of_keep?_none (hkeep.trans hshape)
      rw [hflat] at hpaired hplaces ⊢
      exact ⟨hpaired, hplaces, rfl, fun values h => Rolls.flat.inj h, nofun, nofun⟩
  | some keep =>
      obtain ⟨pairs, hrolls, hselected⟩ := Hand.selected_of_keep?_some (hkeep.trans hshape)
      have htype : type.keep? = some keep := by
        cases shape with
        | simple dice => exact hshape
        | complex groups => exact nomatch hshape
      rw [hrolls] at hpaired hplaces ⊢
      rw [hselected]
      refine ⟨hpaired, hplaces, List.length_map _, nofun, ?_, ?_⟩
      · rintro pairs' h rfl
        cases htype
        rw [← Rolls.paired.inj h]
        rfl
      · rintro pairs' h rfl
        cases htype
        rw [← Rolls.paired.inj h]
        rfl

/-- Whatever the source, the values that came up for the dice of a shape
make a selection. -/
theorem Thrown.selection {bias : Bias} {type : RollType} {shape : Shape} {hand : Hand}
    {draws : List Draw} (h : Thrown bias (shape.sides type) draws hand.rolls.values)
    (hkeep : hand.keep? = shape.keep? type) : Selection shape type hand.rolls hand.selected :=
  Hand.selection hkeep h.length_eq

/-! ## What is true of every die -/

theorem forall₂_replicate_iff {P : α → β → Prop} {n : Nat} {a : α} {bs : List β} :
    List.Forall₂ P (List.replicate n a) bs ↔ bs.length = n ∧ ∀ b ∈ bs, P a b := by
  induction n generalizing bs with
  | zero =>
      rw [List.replicate_zero, List.forall₂_nil_left_iff]
      constructor
      · rintro rfl
        exact ⟨rfl, fun _ h => absurd h List.not_mem_nil⟩
      · rintro ⟨hlength, _⟩
        exact List.eq_nil_of_length_eq_zero hlength
  | succ n ih =>
      cases bs with
      | nil => simp
      | cons b bs =>
          rw [List.replicate_succ, List.forall₂_cons, ih, List.length_cons, Nat.add_right_cancel_iff,
            List.forall_mem_cons, and_left_comm]

namespace Selection

variable {shape : Shape} {type : RollType} {rolls : Rolls} {pairs : List (Nat × Nat)}
  {selected : List Nat}

theorem of_pair (h : Selection shape type (.paired pairs) selected) {value : Nat}
    (hvalue : value ∈ selected) : ∃ pair ∈ pairs, value = pair.1 ∨ value = pair.2 := by
  obtain ⟨_, htype⟩ := h.paired.mp rfl
  cases type with
  | normal => exact absurd rfl htype
  | advantage =>
      rw [h.higher pairs rfl rfl] at hvalue
      obtain ⟨pair, hpair, rfl⟩ := List.mem_map.mp hvalue
      exact ⟨pair, hpair, max_choice pair.1 pair.2⟩
  | disadvantage =>
      rw [h.lower pairs rfl rfl] at hvalue
      obtain ⟨pair, hpair, rfl⟩ := List.mem_map.mp hvalue
      exact ⟨pair, hpair, min_choice pair.1 pair.2⟩

protected theorem forall₂ {P : Nat → Nat → Prop} (h : Selection shape type rolls selected)
    (hP : List.Forall₂ P (shape.sides type) rolls.values) :
    List.Forall₂ P (sidesOf 1 shape.groups) selected := by
  rw [Shape.sides, Shape.perPlace] at hP
  cases rolls with
  | flat values =>
      have hkeep : shape.keep? type = none := by
        rw [← Option.not_isSome_iff_eq_none, shape.isSome_keep?, ← h.paired]
        exact Bool.false_ne_true
      rw [hkeep] at hP
      rw [h.flat values rfl]
      exact hP
  | paired pairs =>
      obtain ⟨keep, hkeep⟩ :=
        Option.isSome_iff_exists.mp ((shape.isSome_keep? type).mpr (h.paired.mp rfl))
      rw [hkeep] at hP
      cases shape with
      | complex groups => cases hkeep
      | simple dice =>
          -- all dice have the same sides, so it does not matter which of a pair counts
          simp only [Shape.groups, sidesOf_cons, sidesOf_nil, List.append_nil] at hP ⊢
          obtain ⟨_, hvalues⟩ := forall₂_replicate_iff.mp hP
          refine forall₂_replicate_iff.mpr ⟨?_, ?_⟩
          · rw [h.length, h.places, Nat.one_mul]
            rfl
          · intro value hvalue
            obtain ⟨pair, hpair, hcounts⟩ := h.of_pair hvalue
            refine hvalues value (List.mem_flatMap.mpr ⟨pair, hpair, ?_⟩)
            rcases hcounts with rfl | rfl
            · exact List.mem_cons_self
            · exact List.mem_cons_of_mem _ List.mem_cons_self

theorem eq_map (h : Selection shape type rolls selected) {answer : Nat → Nat}
    (hrolls : rolls.values = (shape.sides type).map answer) :
    selected = (sidesOf 1 shape.groups).map answer := by
  have hall : List.Forall₂ (fun sides value => answer sides = value) (shape.sides type)
      rolls.values := by
    rw [hrolls, List.forall₂_map_right_iff, List.forall₂_same]
    exact fun _ _ => rfl
  have hcount := h.forall₂ hall
  rw [← List.forall₂_map_left_iff, List.forall₂_eq_eq_eq] at hcount
  exact hcount.symm

end Selection

/-! ## Rolls -/

section Rolls

variable {engine : Engine σ} {spec : Spec} {type : RollType} {bias : Bias} {s s' : σ}

theorem selection_of_ok {outcome : Outcome}
    (hrun : (engine.rollSpec spec type bias).run s = .ok outcome s') :
    Selection spec.shape type outcome.rolls outcome.selected ∧
      total outcome.selected < totalBound ∧
      outcome.final = total outcome.selected + spec.modifier := by
  obtain ⟨hrolled, _⟩ := specRolled_of_ok hrun
  obtain ⟨hand, hshape, hlt, rfl⟩ := rollSpec_eq_ok hrun
  exact ⟨hrolled.thrown.selection (rollShape_keep? hshape), hlt, rfl⟩

/-- If nothing is refused and no draw fails, all dice are thrown, and the
sum of the values that count decides. -/
theorem thrown_of_answered (hfits : spec.highest < totalBound)
    (hsound : ∀ d ∈ spec.groups, d.refusal? = none)
    (hanswered : Answered ((engine.logged.rollSpec spec type bias).drawn s)) :
    ∃ rolls selected,
      Thrown bias (spec.shape.sides type) ((engine.logged.rollSpec spec type bias).drawn s)
        rolls.values ∧
      Selection spec.shape type rolls selected ∧
      ((∃ outcome s', (engine.rollSpec spec type bias).run s = .ok outcome s' ∧
          total selected < totalBound) ∨
        ∃ s', (engine.rollSpec spec type bias).run s = .error .overflow s' ∧
          totalBound ≤ total selected) := by
  cases hrun : (engine.rollSpec spec type bias).run s with
  | ok outcome s' =>
      obtain ⟨hrolled, _⟩ := specRolled_of_ok hrun
      obtain ⟨hselection, hlt, _⟩ := selection_of_ok hrun
      exact ⟨outcome.rolls, outcome.selected, hrolled.thrown, hselection,
        .inl ⟨outcome, s', rfl, hlt⟩⟩
  | error error s' =>
      obtain ⟨hfailure, _⟩ := specFailure_of_error hrun
      generalize (engine.logged.rollSpec spec type bias).drawn s = draws at hfailure hanswered ⊢
      cases hfailure with
      | tooLarge hlarge => exact absurd hfits (Nat.not_lt.mpr hlarge)
      | refused _ hrefused => exact absurd hsound hrefused.not_sound
      | brokenOff _ hbroken =>
          obtain ⟨throws, broken, _, rfl⟩ := hbroken
          rw [BrokenThrow.draws, ← List.append_assoc] at hanswered
          exact absurd rfl hanswered.ne_error
      | @overflow _ hand _ hthrown hkeep hlarge =>
          exact ⟨hand.rolls, hand.selected, hthrown, hthrown.selection hkeep,
            .inr ⟨s', rfl, hlarge⟩⟩

end Rolls

/-- The result of a roll is the exact sum of the values that count and of
the modifier, whatever the source answers.  If nothing is refused and no
draw fails, that sum alone decides: all dice are rolled, and the roll fails
only if it is too large. -/
theorem rollSpec_exact (engine : Engine σ) (spec : Spec) (type : RollType) (bias : Bias) (s : σ) :
    (∀ outcome s', (engine.rollSpec spec type bias).run s = .ok outcome s' →
      Selection spec.shape type outcome.rolls outcome.selected ∧
      runningTotal? outcome.selected = some (total outcome.selected) ∧
      outcome.final = total outcome.selected + spec.modifier ∧
      (-2 ^ 31 ≤ spec.modifier → spec.modifier < 2 ^ 31 →
        -2 ^ 31 ≤ outcome.final ∧ outcome.final < 2 ^ 32 + 2 ^ 31)) ∧
    (spec.highest < 2 ^ 32 → (∀ d ∈ spec.groups, d.refusal? = none) →
      Answered ((engine.logged.rollSpec spec type bias).drawn s) →
      ∃ (throws : List (Throw bias)) (rolls : Rolls) (selected : List Nat),
        (engine.logged.rollSpec spec type bias).drawn s = throws.flatMap Throw.draws ∧
        throws.map Throw.sides = spec.shape.sides type ∧
        throws.map Throw.value = rolls.values ∧
        Selection spec.shape type rolls selected ∧
        ((∃ error s', (engine.rollSpec spec type bias).run s = .error error s') ↔
          2 ^ 32 ≤ total selected) ∧
        ∀ error s', (engine.rollSpec spec type bias).run s = .error error s' →
          error = .overflow) := by
  refine ⟨?_, ?_⟩
  · intro outcome s' hrun
    obtain ⟨hselection, hlt, hfinal⟩ := selection_of_ok hrun
    refine ⟨hselection, by rw [runningTotal?_eq, total?_of_lt hlt], hfinal, ?_⟩
    intro hlow hhigh
    have hbound : total outcome.selected < 2 ^ 32 := hlt
    omega
  · intro hfits hsound hanswered
    obtain ⟨rolls, selected, ⟨throws, hsides, hvalues, hdraws⟩, hselection, hend⟩ :=
      thrown_of_answered hfits hsound hanswered
    refine ⟨throws, rolls, selected, hdraws, hsides, hvalues, hselection, ?_⟩
    rcases hend with ⟨outcome, s', hrun, hlt⟩ | ⟨s', hrun, hlarge⟩
    · rw [hrun]
      refine ⟨⟨nofun, fun hle => absurd hlt (Nat.not_lt.mpr hle)⟩, nofun⟩
    · rw [hrun]
      refine ⟨⟨fun _ => hlarge, fun _ => ⟨.overflow, s', rfl⟩⟩, ?_⟩
      rintro error s'' h
      cases h
      rfl

/-- Two dice in pairs, with values that no die shows: the higher ones total
the largest number there is, or one too many. -/
theorem rollSpec_exact_largest_total :
    (∃ outcome,
      (Engine.rollSpec ⟨.listed, default⟩ ⟨.simple ⟨2, 6⟩, -2 ^ 31, "2d6"⟩ .advantage .fair).run
          [4294967290, 7, 3, 5] = .ok outcome [] ∧
        outcome.selected = [4294967290, 5] ∧
        outcome.final = total [4294967290, 5] + -2 ^ 31 ∧
        runningTotal? [4294967290, 5] = some (total [4294967290, 5])) ∧
    ∃ (throws : List (Throw .fair)) (rolls : Rolls) (selected : List Nat),
      drawsOf 6 [4294967290, 7, 3, 6] = throws.flatMap Throw.draws ∧
        throws.map Throw.value = rolls.values ∧
        Selection twoDice.shape .advantage rolls selected ∧
        2 ^ 32 ≤ total selected := by
  refine ⟨⟨_, rfl, rfl, ?_⟩, ?_⟩
  · obtain ⟨_, hsum, hfinal, _⟩ :=
      (rollSpec_exact ⟨.listed, default⟩ ⟨.simple ⟨2, 6⟩, -2 ^ 31, "2d6"⟩ .advantage .fair
        [4294967290, 7, 3, 5]).1 _ _ rfl
    exact ⟨hfinal, hsum⟩
  · obtain ⟨throws, rolls, selected, hdraws, _, hvalues, hselection, hfails, _⟩ :=
      (rollSpec_exact ⟨.listed, default⟩ twoDice .advantage .fair [4294967290, 7, 3, 6]).2
        (by decide) (by decide) (answered_drawsOf 6 [4294967290, 7, 3, 6])
    exact ⟨throws, rolls, selected, hdraws, hvalues, hselection,
      hfails.mp ⟨.overflow, [], rfl⟩⟩

end DiceRoller
