/-
# Spelling does not matter

Notation may be spread out with blanks, even inside a number, and its
letters may be capitals.  What is rolled depends on neither.

The text is used in two ways.  It is read without its blanks and in lower
case (`plainText`), and it is shown without its blanks but as it was typed
(`normalize`).  Everything that is decided is decided by what is read.
What is shown gets into one field of an outcome, and into one kind of
refusal.

| two spellings of one notation | |
| :-- | :-- |
| both are rolled | the same outcome, but for the notation that it names |
| both are refused | the same reason, but for the text that is shown with a fault |
| both fail when the dice are rolled | the same error and the same state |

Lowering a letter moves no character to another byte, so a fault lies at
the same place in either spelling.
-/
import DiceRoller.Engine
import DiceRoller.Proofs.Notation.Acceptance

namespace DiceRoller

variable {σ : Type}

/-! ## Blanks -/

theorem dropBlanks_append (text more : String) :
    dropBlanks (text ++ more) = dropBlanks text ++ dropBlanks more := by
  simp [dropBlanks]

theorem dropBlanks_space_append (text : String) : dropBlanks (" " ++ text) = dropBlanks text :=
  dropBlanks_append " " text

theorem dropBlanks_join (words : List String) :
    dropBlanks (String.join words) = words.flatMap dropBlanks := by
  induction words with
  | nil => rfl
  | cons word words ih =>
      rw [String.join_cons, dropBlanks_append, ih, List.flatMap_cons]

theorem dropBlanks_intercalate (words : List String) :
    dropBlanks (" ".intercalate words) = dropBlanks (String.join words) := by
  rw [dropBlanks_join]
  induction words with
  | nil => rfl
  | cons word words ih =>
      cases words with
      | nil => simp
      | cons next words =>
          rw [String.intercalate_cons_cons, String.append_assoc, dropBlanks_append,
            dropBlanks_space_append, ih]
          rfl

/-- Texts that differ in no more than their blanks are read the same. -/
theorem parse_congr {text text' : String} (h : dropBlanks text = dropBlanks text')
    (limits : Limits) : parse limits text = parse limits text' := by
  simp only [parse, normalize, h]

/-! ## Two spellings -/

/-- The same characters, but for capitals. -/
def SameButCase (text text' : String) : Prop :=
  lowerCase text.toList = lowerCase text'.toList

/-- Without their blanks the texts are the same, but for capitals. -/
def SameNotation (text text' : String) : Prop :=
  SameButCase (normalize text) (normalize text')

instance (text text' : String) : Decidable (SameNotation text text') :=
  inferInstanceAs
    (Decidable (lowerCase (normalize text).toList = lowerCase (normalize text').toList))

theorem sameNotation_iff {text text' : String} :
    SameNotation text text' ↔ plainText text = plainText text' := by
  simp only [SameNotation, SameButCase, normalize, String.toList_ofList, plainText]

/-- Two reasons for a refusal that differ in no more than the spelling. -/
inductive ParseError.SpelledAlike : ParseError → ParseError → Prop
  | empty : SpelledAlike .empty .empty
  | malformed {text text' : String} {fault : Fault} :
      SameButCase text text' → SpelledAlike (.malformed text fault) (.malformed text' fault)
  | countOutOfBounds {count max : Nat} :
      SpelledAlike (.countOutOfBounds count max) (.countOutOfBounds count max)
  | sidesOutOfBounds {sides min max : Nat} :
      SpelledAlike (.sidesOutOfBounds sides min max) (.sidesOutOfBounds sides min max)

/-- Two ends of a roll from `start` that differ in no more than the
spelling. -/
inductive SpelledAlike (start : σ) :
    EStateM.Result RollError σ Outcome → EStateM.Result RollError σ Outcome → Prop
  | rolled (outcome : Outcome) {format : String} {s : σ} :
      SameButCase outcome.format format →
        SpelledAlike start (.ok outcome s) (.ok { outcome with format := format } s)
  | refused {cause cause' : ParseError} : cause.SpelledAlike cause' →
      SpelledAlike start (.error (.invalidFormat cause) start)
        (.error (.invalidFormat cause') start)
  | failed {error : DiceError} {s : σ} :
      SpelledAlike start (.error (.dice error) s) (.error (.dice error) s)

/-! ## Reading -/

theorem Limits.check_error_spelledAlike {limits : Limits} {dice : Dice} {error : ParseError}
    (h : limits.check dice = .error error) : error.SpelledAlike error := by
  unfold check at h
  split at h
  · cases h
    exact .countOutOfBounds
  · split at h
    · cases h
      exact .sidesOutOfBounds
    · exact nomatch h

/-- Two spellings are read alike: as specs that differ in the format, or
with reasons that differ in the text shown. -/
theorem parse_spelledAlike (limits : Limits) {text text' : String}
    (h : SameNotation text text') :
    (∃ spec : Spec, parse limits text = .ok { spec with format := normalize text } ∧
      parse limits text' = .ok { spec with format := normalize text' }) ∨
    ∃ cause cause', parse limits text = .error cause ∧ parse limits text' = .error cause' ∧
      cause.SpelledAlike cause' := by
  have hplain : plainText text = plainText text' := sameNotation_iff.mp h
  by_cases hblank : dropBlanks text = []
  · have hblank' : dropBlanks text' = [] := by
      simpa [plainText, lowerCase, hblank] using hplain.symm
    exact .inr ⟨_, _, parse_of_blank hblank, parse_of_blank hblank', .empty⟩
  cases hread : Reading.reader.read (plainText text) with
  | error fault =>
      have hblank' : dropBlanks text' ≠ [] := by
        intro hblank'
        exact hblank (by simpa [plainText, lowerCase, hblank'] using hplain)
      have hread' := hread
      rw [hplain] at hread'
      exact .inr ⟨_, _, parse_of_fault hblank hread, parse_of_fault hblank' hread',
        .malformed h⟩
  | ok reading =>
      have hread' := hread
      rw [hplain] at hread'
      rw [parse_of_reading hread, parse_of_reading hread']
      cases hcheck : reading.groups.mapM limits.check with
      | ok groups => exact .inl ⟨⟨.ofGroups groups, reading.modifier, ""⟩, rfl, rfl⟩
      | error error =>
          obtain ⟨dice, _, hdice⟩ := mapM_check_eq_error_iff.mp hcheck
          exact .inr ⟨error, error, rfl, rfl, Limits.check_error_spelledAlike hdice⟩

/-! ## Rolling -/

namespace Engine

variable (engine : Engine σ)

/-- The format of a spec is written into the outcome, and nothing else is
done with it. -/
theorem rollSpec_format (spec : Spec) (format : String) (type : RollType) (bias : Bias) :
    engine.rollSpec { spec with format := format } type bias =
      (fun outcome => { outcome with format := format }) <$> engine.rollSpec spec type bias := by
  have hhighest : ({ spec with format := format } : Spec).highest = spec.highest := rfl
  rw [rollSpec, rollSpec, hhighest]
  split
  · rfl
  · rw [map_bind]
    refine bind_congr fun hand => ?_
    cases total? hand.selected with
    | some total => rfl
    | none => rfl

theorem roll_of_refused {text : String} {cause : ParseError}
    (h : parse engine.limits text = .error cause) (type : RollType) (bias : Bias) (s : σ) :
    (engine.roll text type bias).run s = .error (.invalidFormat cause) s := by
  rw [roll, h]
  rfl

theorem roll_of_parsed {text format : String} {spec : Spec}
    (h : parse engine.limits text = .ok { spec with format := format }) (type : RollType)
    (bias : Bias) (s : σ) :
    (engine.roll text type bias).run s =
      match (engine.rollSpec spec type bias).run s with
      | .ok outcome s' => .ok { outcome with format := format } s'
      | .error error s' => .error (.dice error) s' := by
  have hroll : (engine.roll text type bias).run s =
      ((engine.rollSpec { spec with format := format } type bias).adaptExcept .dice).run s := by
    rw [roll, h]
  rw [hroll, rollSpec_format, map_eq_pure_bind]
  simp only [EStateM.run, EStateM.adaptExcept, bind, EStateM.bind]
  cases (engine.rollSpec spec type bias) s with
  | ok outcome s' => rfl
  | error error s' => rfl

end Engine

/-- Two spellings of one notation are rolled alike, by every engine and from
every state.  An engine may keep a log of its draws: that log is part of its
state, and so it is the same too. -/
theorem spelling_does_not_matter (engine : Engine σ) {text text' : String}
    (h : SameNotation text text') (type : RollType) (bias : Bias) (s : σ) :
    SpelledAlike s ((engine.roll text type bias).run s) ((engine.roll text' type bias).run s) := by
  rcases parse_spelledAlike engine.limits h with
    ⟨spec, hspec, hspec'⟩ | ⟨cause, cause', hcause, hcause', halike⟩
  · rw [engine.roll_of_parsed hspec, engine.roll_of_parsed hspec']
    cases (engine.rollSpec spec type bias).run s with
    | ok outcome s' => exact .rolled { outcome with format := normalize text } h
    | error error s' => exact .failed
  · rw [engine.roll_of_refused hcause, engine.roll_of_refused hcause']
    exact .refused halike

/-- Blanks inside of a number and of a group, and a capital letter, before
two dice are rolled; and before a fault at a letter of two bytes. -/
theorem spelling_does_not_matter_two_dice :
    (SameNotation "2 D6 +1\t0" "2d6+10" ∧
      SpelledAlike [3, 4]
        ((Engine.roll ⟨.listed, default⟩ "2 D6 +1\t0" .normal .fair).run [3, 4])
        ((Engine.roll ⟨.listed, default⟩ "2d6+10" .normal .fair).run [3, 4])) ∧
    SameNotation "2\u3000D6+7É" "2d6 +7É" ∧
      SpelledAlike [3, 4]
        (.error (.invalidFormat
          (.malformed "2D6+7É" ⟨5, some 'É', [.character 'd', .endOfInput]⟩)) [3, 4])
        (.error (.invalidFormat
          (.malformed "2d6+7É" ⟨5, some 'É', [.character 'd', .endOfInput]⟩)) [3, 4]) := by
  have hten : SameNotation "2 D6 +1\t0" "2d6+10" := by decide
  have hfault : SameNotation "2\u3000D6+7É" "2d6 +7É" := by decide
  exact ⟨⟨hten, spelling_does_not_matter ⟨.listed, default⟩ hten .normal .fair [3, 4]⟩,
    hfault, spelling_does_not_matter ⟨.listed, default⟩ hfault .normal .fair [3, 4]⟩

end DiceRoller
