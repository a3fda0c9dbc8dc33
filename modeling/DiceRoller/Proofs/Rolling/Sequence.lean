/-
# A roll is one die after the other

A shape is rolled in one of three ways: a single group, groups that are
added up, or pairs.  Each has its own guards and its own way of putting
values together, but the raw values are always those of one die after the
other: groups from left to right, the dice of a group in order, the first
and the second die of a pair (`rollShape_values`).  The first group that
cannot be rolled ends the roll, after the dice of the groups before it.

What is proved of `rollEach`, dice in a row and nothing else, is thereby
proved of every roll.  What the values are put together to is said once, for
all three ways: the hands that can come of a shape (`Hand.Dealt`).
-/
import Mathlib.Data.List.Forall2
import DiceRoller.Engine

namespace DiceRoller

variable {σ α β : Type}

/-! ## Which dice are rolled -/

/-- The reason why a group cannot be rolled, if there is one; of two
reasons the count is named. -/
def Dice.refusal? (dice : Dice) : Option DiceError :=
  if dice.count = 0 then some .invalidCount
  else if Rollable dice.sides then none
  else some (.invalidDie dice.sides)

theorem Dice.refusal?_eq_none_iff {dice : Dice} :
    dice.refusal? = none ↔ dice.count ≠ 0 ∧ Rollable dice.sides := by
  unfold Dice.refusal?
  split <;> simp_all

theorem Dice.refusal?_of_count {dice : Dice} (h : dice.count = 0) :
    dice.refusal? = some .invalidCount := by
  rw [Dice.refusal?, if_pos h]

theorem Dice.refusal?_of_sides {dice : Dice} (hcount : dice.count ≠ 0)
    (h : ¬ Rollable dice.sides) : dice.refusal? = some (.invalidDie dice.sides) := by
  rw [Dice.refusal?, if_neg hcount, if_neg h]

theorem sound_of_rollable {groups : List Dice}
    (h : ∀ d ∈ groups, 1 ≤ d.count ∧ Rollable d.sides) : ∀ d ∈ groups, d.refusal? = none := by
  intro d hd
  obtain ⟨hcount, hsides⟩ := h d hd
  exact Dice.refusal?_eq_none_iff.mpr ⟨Nat.ne_of_gt hcount, hsides⟩

/-- Which die of each pair is kept, if the dice are thrown in pairs: those
of a single group are, if the roll type asks for it. -/
def Shape.keep? (type : RollType) : Shape → Option Keep
  | simple _ => type.keep?
  | complex _ => none

/-- How many dice are thrown for each one asked for. -/
def Shape.perPlace (type : RollType) (shape : Shape) : Nat :=
  match shape.keep? type with
  | none => 1
  | some _ => 2

/-- The sides of every die of the groups, in the order rolled. -/
def sidesOf (perPlace : Nat) (groups : List Dice) : List Nat :=
  groups.flatMap fun dice => List.replicate (perPlace * dice.count) dice.sides

@[simp] theorem sidesOf_nil (perPlace : Nat) : sidesOf perPlace [] = [] :=
  rfl

@[simp] theorem sidesOf_cons (perPlace : Nat) (dice : Dice) (groups : List Dice) :
    sidesOf perPlace (dice :: groups) =
      List.replicate (perPlace * dice.count) dice.sides ++ sidesOf perPlace groups :=
  rfl

def Shape.sides (type : RollType) (shape : Shape) : List Nat :=
  sidesOf (shape.perPlace type) shape.groups

/-- All values, those of a pair one after the other. -/
def Rolls.values : Rolls → List Nat
  | flat values => values
  | paired pairs => pairs.flatMap fun pair => [pair.1, pair.2]

def inTwos : List Nat → List (Nat × Nat)
  | first :: second :: values => (first, second) :: inTwos values
  | _ => []

def Rolls.ofValues : Bool → List Nat → Rolls
  | false, values => flat values
  | true, values => paired (inTwos values)

theorem inTwos_values (pairs : List (Nat × Nat)) : inTwos (Rolls.paired pairs).values = pairs := by
  induction pairs with
  | nil => rfl
  | cons pair pairs ih => exact congrArg (pair :: ·) ih

theorem Rolls.ofValues_values (rolls : Rolls) : ofValues rolls.isPaired rolls.values = rolls := by
  cases rolls with
  | flat values => rfl
  | paired pairs => exact congrArg paired (inTwos_values pairs)

/-! ## Hands -/

def Hand.keep? : Hand → Option Keep
  | single _ => none
  | inGroups _ => none
  | inPairs keep _ => some keep

@[simp] theorem Hand.isPaired_rolls (hand : Hand) :
    hand.rolls.isPaired = hand.keep?.isSome := by
  cases hand <;> rfl

theorem Hand.selected_of_keep?_none {hand : Hand} (h : hand.keep? = none) :
    hand.rolls = .flat hand.selected := by
  cases hand with
  | single values => rfl
  | inGroups rolled => rfl
  | inPairs keep pairs => exact nomatch h

theorem Hand.selected_of_keep?_some {hand : Hand} {keep : Keep} (h : hand.keep? = some keep) :
    ∃ pairs, hand.rolls = .paired pairs ∧ hand.selected = pairs.map keep.pick := by
  cases hand with
  | single values => exact nomatch h
  | inGroups rolled => exact nomatch h
  | inPairs keep' pairs => cases h; exact ⟨pairs, rfl, rfl⟩

/-! ## Dice in a row -/

namespace Source

variable (source : Source σ)

def rollEach (bias : Bias) (sides : List Nat) : Rolling σ (List Nat) :=
  sides.mapM fun n => source.rollDie n bias

/-- Rolls the dice of the groups in a row, up to the first group that
cannot be rolled. -/
def rollGroups (bias : Bias) (perPlace : Nat) (groups : List Dice) : Rolling σ (List Nat) := do
  let values ← source.rollEach bias
    (sidesOf perPlace (groups.takeWhile fun dice => dice.refusal?.isNone))
  match groups.findSome? Dice.refusal? with
  | none => pure values
  | some refusal => throw refusal

variable {source} {bias : Bias}

@[simp] theorem rollEach_nil : source.rollEach bias [] = pure [] :=
  rfl

theorem rollEach_append (front back : List Nat) :
    source.rollEach bias (front ++ back) =
      (do
        let values ← source.rollEach bias front
        let more ← source.rollEach bias back
        pure (values ++ more)) :=
  List.mapM_append

theorem rollEach_replicate (n sides : Nat) :
    source.rollEach bias (List.replicate n sides) =
      Rolling.times n (source.rollDie sides bias) := by
  induction n with
  | zero => rfl
  | succ n ih =>
      rw [List.replicate_succ, Rolling.times_succ, ← ih]
      exact List.mapM_cons

theorem rollGroups_cons_of_sound {dice : Dice} (h : dice.refusal? = none) (perPlace : Nat)
    (groups : List Dice) :
    source.rollGroups bias perPlace (dice :: groups) =
      (do
        let values ← source.rollEach bias (List.replicate (perPlace * dice.count) dice.sides)
        let more ← source.rollGroups bias perPlace groups
        pure (values ++ more)) := by
  simp only [rollGroups, List.takeWhile_cons, List.findSome?_cons, h, Option.isNone_none,
    if_true, sidesOf_cons, rollEach_append, bind_assoc, pure_bind]
  cases groups.findSome? Dice.refusal? with
  | none => simp only [pure_bind]
  | some refusal => rfl

theorem rollGroups_cons_of_refused {dice : Dice} {refusal : DiceError}
    (h : dice.refusal? = some refusal) (perPlace : Nat) (groups : List Dice) :
    source.rollGroups bias perPlace (dice :: groups) = throw refusal := by
  simp [rollGroups, h]

/-! ## The three ways of rolling -/

theorem rollMany_of_sound {dice : Dice} (h : dice.refusal? = none)
    (hbound : dice.highest < totalBound) :
    source.rollMany dice.count dice.sides bias =
      source.rollEach bias (List.replicate dice.count dice.sides) := by
  obtain ⟨hcount, hsides⟩ := Dice.refusal?_eq_none_iff.mp h
  have hfits : ¬ totalBound ≤ dice.count * dice.sides := Nat.not_le.mpr hbound
  rw [rollMany_unlimited, if_neg hcount, if_neg (not_not_intro hsides), if_neg hfits,
    rollEach_replicate]

theorem rollMany_of_refused {dice : Dice} {refusal : DiceError}
    (h : dice.refusal? = some refusal) (memory : Memory := .unlimited) :
    source.rollMany dice.count dice.sides bias memory = throw refusal := by
  unfold Dice.refusal? at h
  split at h
  · next hcount => cases h; rw [rollMany, if_pos hcount]
  · next hcount =>
      split at h
      · cases h
      · next hsides => cases h; rw [rollMany, if_neg hcount, if_pos hsides]

/-- Groups that are added up are rolled in a row. -/
theorem rollDice_values (groups : List Dice)
    (hbound : ∀ dice ∈ groups, dice.highest < totalBound) :
    (fun rolled => rolled.flatMap Rolled.values) <$>
        groups.mapM (fun dice => source.rollDice dice bias) =
      source.rollGroups bias 1 groups := by
  induction groups with
  | nil => simp [rollGroups]
  | cons dice groups ih =>
      have ih := ih fun d hd => hbound d (List.mem_cons_of_mem _ hd)
      cases hrefusal : dice.refusal? with
      | some refusal =>
          rw [rollGroups_cons_of_refused hrefusal, List.mapM_cons]
          simp only [rollDice, rollMany_of_refused hrefusal]
          rfl
      | none =>
          rw [rollGroups_cons_of_sound hrefusal, ← ih, Nat.one_mul,
            ← rollMany_of_sound hrefusal (hbound dice List.mem_cons_self), List.mapM_cons]
          simp only [rollDice, map_bind, map_pure, bind_assoc, pure_bind, bind_map_left,
            List.flatMap_cons]

theorem rollPair_values (n sides : Nat) :
    (fun pairs => pairs.flatMap fun pair => [pair.1, pair.2]) <$>
        Rolling.times n (source.rollPair sides bias) =
      source.rollEach bias (List.replicate (2 * n) sides) := by
  induction n with
  | zero => simp
  | succ n ih =>
      have htwo : 2 * (n + 1) = 2 + 2 * n := by omega
      rw [htwo, ← List.replicate_append_replicate, rollEach_append, ← ih,
        Rolling.times_succ]
      simp only [rollPair, rollEach, List.replicate_succ, List.replicate_zero,
        List.mapM_cons, List.mapM_nil, map_bind, map_pure, bind_assoc, pure_bind,
        bind_map_left, List.flatMap_cons, List.cons_append, List.nil_append]

theorem rollPair_of_refused {n sides : Nat} (hn : n ≠ 0) (h : ¬ Rollable sides) :
    Rolling.times n (source.rollPair sides bias) = throw (.invalidDie sides) := by
  obtain ⟨n, rfl⟩ := Nat.exists_eq_succ_of_ne_zero hn
  have hdie : source.rollDie sides bias = throw (.invalidDie sides) := by
    rw [rollDie, if_neg h]
  rw [Nat.succ_eq_add_one, Rolling.times_succ, rollPair, hdie]
  rfl

end Source

open Source in
/-- The raw values of a roll are those of its dice, one after the other. -/
theorem rollShape_values (source : Source σ) (type : RollType) (bias : Bias) (shape : Shape)
    (hbound : ∀ dice ∈ shape.groups, dice.highest < totalBound) :
    (fun hand => hand.rolls.values) <$> source.rollShape type bias shape =
      source.rollGroups bias (shape.perPlace type) shape.groups := by
  cases shape with
  | complex groups =>
      simp only [rollShape_complex, Shape.perPlace, Shape.keep?, Shape.groups, map_bind,
        map_pure, Hand.rolls, Rolls.values]
      rw [← rollDice_values groups hbound, map_eq_pure_bind]
  | simple dice =>
      have hfits : dice.highest < totalBound := hbound dice List.mem_cons_self
      simp only [rollShape_simple, Shape.perPlace, Shape.keep?, Shape.groups]
      cases hkeep : type.keep? with
      | none =>
          simp only [map_bind, map_pure, Hand.rolls, Rolls.values]
          cases hrefusal : dice.refusal? with
          | some refusal =>
              rw [rollGroups_cons_of_refused hrefusal, rollMany_of_refused hrefusal]
              rfl
          | none =>
              rw [rollGroups_cons_of_sound hrefusal, rollMany_of_sound hrefusal hfits]
              simp [rollGroups]
      | some keep =>
          dsimp only
          by_cases hcount : dice.count = 0
          · rw [rollGroups_cons_of_refused (Dice.refusal?_of_count hcount), if_pos hcount]
            rfl
          rw [if_neg hcount]
          by_cases hsides : Rollable dice.sides
          · have hrefusal : dice.refusal? = none :=
              Dice.refusal?_eq_none_iff.mpr ⟨hcount, hsides⟩
            rw [rollGroups_cons_of_sound hrefusal, ← rollPair_values]
            simp [rollGroups, Hand.rolls, Rolls.values]
          · rw [rollGroups_cons_of_refused (Dice.refusal?_of_sides hcount hsides),
              rollPair_of_refused hcount hsides]
            rfl

/-! ## Rolls that gave something -/

theorem run_bind_eq_ok {ε : Type} {roll : EStateM ε σ α} {next : α → EStateM ε σ β} {b : β}
    {s s' : σ} (h : (roll >>= next).run s = .ok b s') :
    ∃ a t, roll.run s = .ok a t ∧ (next a).run t = .ok b s' := by
  rw [EStateM.run_bind] at h
  cases hend : roll.run s with
  | ok a t => rw [hend] at h; exact ⟨a, t, rfl, h⟩
  | error e t => rw [hend] at h; exact nomatch h

theorem run_map_eq_ok_iff {ε : Type} {roll : EStateM ε σ α} {view : α → β} {b : β} {s s' : σ} :
    (view <$> roll).run s = .ok b s' ↔ ∃ a, roll.run s = .ok a s' ∧ view a = b := by
  rw [map_eq_pure_bind]
  constructor
  · intro h
    obtain ⟨a, t, hroll, hpure⟩ := run_bind_eq_ok h
    cases hpure
    exact ⟨a, hroll, rfl⟩
  · rintro ⟨a, hroll, rfl⟩
    rw [EStateM.run_bind, hroll]
    rfl

theorem run_map_eq_error_iff {ε : Type} {roll : EStateM ε σ α} {view : α → β} {e : ε}
    {s s' : σ} : (view <$> roll).run s = .error e s' ↔ roll.run s = .error e s' := by
  rw [map_eq_pure_bind, EStateM.run_bind]
  cases roll.run s with
  | ok a t => simp
  | error e t => simp

theorem length_of_times {roll : Rolling σ α} {n : Nat} {values : List α} {s s' : σ}
    (h : (Rolling.times n roll).run s = .ok values s') : values.length = n := by
  induction n generalizing values s with
  | zero => cases h; rfl
  | succ n ih =>
      rw [Rolling.times_succ] at h
      obtain ⟨value, t, -, hmore⟩ := run_bind_eq_ok h
      obtain ⟨more, u, htimes, hpure⟩ := run_bind_eq_ok hmore
      cases hpure
      rw [List.length_cons, ih htimes]

theorem forall₂_of_mapM_ok {ε : Type} {roll : α → EStateM ε σ β} {P : α → β → Prop}
    (h : ∀ a b s s', (roll a).run s = .ok b s' → P a b) {as : List α} {bs : List β} {s s' : σ}
    (hrun : (as.mapM roll).run s = .ok bs s') : List.Forall₂ P as bs := by
  induction as generalizing s bs with
  | nil => cases hrun; exact .nil
  | cons a as ih =>
      rw [List.mapM_cons] at hrun
      obtain ⟨b, t, hfirst, hrest⟩ := run_bind_eq_ok hrun
      obtain ⟨more, t', hmore, hpure⟩ := run_bind_eq_ok hrest
      cases hpure
      exact .cons (h a b s t hfirst) (ih hmore)

theorem roll_eq_ok_iff {engine : Engine σ} {text : String} {type : RollType} {bias : Bias}
    {s s' : σ} {outcome : Outcome} :
    (engine.roll text type bias).run s = .ok outcome s' ↔
      ∃ spec, parse engine.limits text = .ok spec ∧
        (engine.rollSpec spec type bias).run s = .ok outcome s' := by
  rw [Engine.roll]
  cases parse engine.limits text with
  | error cause =>
      constructor
      · intro h
        exact nomatch h
      · rintro ⟨spec, hspec, _⟩
        exact nomatch hspec
  | ok spec =>
      simp only [EStateM.run, EStateM.adaptExcept, Except.ok.injEq, exists_eq_left']
      cases (engine.rollSpec spec type bias) s with
      | ok outcome' t => simp only [EStateM.Result.ok.injEq]
      | error error t => simp only [reduceCtorEq]

/-- An outcome is the record of the hand that was rolled. -/
theorem rollSpec_eq_ok {engine : Engine σ} {spec : Spec} {type : RollType} {bias : Bias}
    {s s' : σ} {outcome : Outcome}
    (h : (engine.rollSpec spec type bias).run s = .ok outcome s') :
    ∃ hand, (engine.source.rollShape type bias spec.shape).run s = .ok hand s' ∧
      total hand.selected < totalBound ∧
      outcome = engine.record spec type bias hand (total hand.selected) := by
  rw [Engine.rollSpec] at h
  split at h
  · exact nomatch h
  · obtain ⟨hand, t, hshape, hrecord⟩ := run_bind_eq_ok h
    cases htotal : total? hand.selected with
    | none => rw [htotal] at hrecord; exact nomatch hrecord
    | some sum =>
        rw [htotal] at hrecord
        cases hrecord
        obtain ⟨hlt, rfl⟩ := bounded?_eq_some.mp htotal
        exact ⟨hand, hshape, hlt, rfl⟩

/-! ## What can lie on the table -/

/-- These dice were rolled, and all of them. -/
def Rolled.IsOf (rolled : Rolled) (dice : Dice) : Prop :=
  rolled.dice = dice ∧ rolled.values.length = dice.count

/-- A hand that can come of a shape. -/
inductive Hand.Dealt (type : RollType) : Shape → Hand → Prop
  | single {dice : Dice} {values : List Nat} (h : type.keep? = none) :
      Dealt type (.simple dice) (.single values)
  | inPairs {dice : Dice} {keep : Keep} {pairs : List (Nat × Nat)} (h : type.keep? = some keep) :
      Dealt type (.simple dice) (.inPairs keep pairs)
  | inGroups {groups : List Dice} {rolled : List Rolled}
      (h : List.Forall₂ (fun dice r => r.IsOf dice) groups rolled) :
      Dealt type (.complex groups) (.inGroups rolled)

theorem rollDice_isOf {source : Source σ} {dice : Dice} {bias : Bias} {s s' : σ}
    {rolled : Rolled} (h : (source.rollDice dice bias).run s = .ok rolled s') :
    rolled.IsOf dice := by
  obtain ⟨values, t, hvalues, hpure⟩ := run_bind_eq_ok h
  cases hpure
  refine ⟨rfl, ?_⟩
  rw [Source.rollMany_unlimited] at hvalues
  split at hvalues
  · cases hvalues
  · split at hvalues
    · cases hvalues
    · split at hvalues
      · cases hvalues
      · exact length_of_times hvalues

theorem rollShape_dealt {source : Source σ} {type : RollType} {bias : Bias} {shape : Shape}
    {s s' : σ} {hand : Hand} (h : (source.rollShape type bias shape).run s = .ok hand s') :
    Hand.Dealt type shape hand := by
  cases shape with
  | complex groups =>
      rw [rollShape_complex] at h
      obtain ⟨rolled, t, hrolled, hpure⟩ := run_bind_eq_ok h
      cases hpure
      exact .inGroups (forall₂_of_mapM_ok (fun _ _ _ _ => rollDice_isOf) hrolled)
  | simple dice =>
      rw [rollShape_simple] at h
      cases hkeep : type.keep? with
      | none =>
          rw [hkeep] at h
          obtain ⟨values, t, -, hpure⟩ := run_bind_eq_ok h
          cases hpure
          exact .single hkeep
      | some keep =>
          rw [hkeep] at h
          dsimp only at h
          split at h
          · cases h
          · obtain ⟨pairs, t, -, hpure⟩ := run_bind_eq_ok h
            cases hpure
            exact .inPairs hkeep

theorem Hand.Dealt.keep?_eq {type : RollType} {shape : Shape} {hand : Hand}
    (h : Dealt type shape hand) : hand.keep? = shape.keep? type := by
  cases h with
  | single hkeep => exact hkeep.symm
  | inPairs hkeep => exact hkeep.symm
  | inGroups hrolled => rfl

theorem rollShape_keep? {source : Source σ} {type : RollType} {bias : Bias} {shape : Shape}
    {s s' : σ} {hand : Hand}
    (h : (source.rollShape type bias shape).run s = .ok hand s') :
    hand.keep? = shape.keep? type :=
  (rollShape_dealt h).keep?_eq

end DiceRoller
