/-
# Printed notation is read back

Groups and modifiers are printed in two places: a group where dice are
described, a modifier where an outcome is explained.  Joined by plus signs
they are notation, and reading it gives the same groups and the same
modifier.

A number is printed as a numeral (`Numeral.ofNat`), so groups and a
modifier are printed as a phrase (`Phrase.ofDice`), only with blanks around
the signs.  The grammar is unambiguous and the reader reads exactly its
phrases; so it is enough that the printed characters are those of the
phrase, and that the phrase says what was printed.  A modifier of zero is
not printed, and a phrase without a modifier says zero.

What a spec keeps of its own text is printed too.  It has no blanks left
in it, and so it reads as the text it was read from (`plainText_normalize`).
-/
import DiceRoller.Outcome
import DiceRoller.Proofs.Notation.Acceptance

namespace DiceRoller

/-! ## Plain text -/

theorem plainText_append (s t : String) :
    plainText (s ++ t) = plainText s ++ plainText t := by
  simp [plainText, dropBlanks, lowerCase]

theorem toLower_of_isDigit {c : Char} (h : c.isDigit = true) : c.toLower = c := by
  have hle : c.val ≤ '9'.val := by
    simp only [Char.isDigit, Bool.and_eq_true, decide_eq_true_eq] at h
    exact h.2
  refine dif_neg fun hupper => ?_
  have hA : 'A'.val ≤ '9'.val := UInt32.le_trans hupper.1 hle
  exact absurd hA (by decide)

theorem isBlank_of_isDigit {c : Char} (h : c.isDigit = true) : isBlank c = false := by
  simp only [Char.isDigit, Bool.and_eq_true, decide_eq_true_eq, ge_iff_le,
    UInt32.le_iff_toNat_le] at h
  have hlow : 48 ≤ c.toNat := h.1
  have hhigh : c.toNat ≤ 57 := h.2
  simp [isBlank, blankRanges]
  omega

theorem isBlank_of_isNotation {c : Char} (h : IsNotation c) : isBlank c = false := by
  rcases h with hdigit | rfl | rfl | rfl
  · exact isBlank_of_isDigit hdigit
  · rfl
  · rfl
  · rfl

theorem toLower_of_isNotation {c : Char} (h : IsNotation c) : c.toLower = c := by
  rcases h with hdigit | rfl | rfl | rfl
  · exact toLower_of_isDigit hdigit
  · rfl
  · rfl
  · rfl

theorem lowerCase_filter_of_isNotation {text : List Char} (h : ∀ c ∈ text, IsNotation c) :
    lowerCase (text.filter fun c => !isBlank c) = text := by
  have hkept : (text.filter fun c => !isBlank c) = text := by
    refine List.filter_eq_self.mpr fun c hc => ?_
    rw [isBlank_of_isNotation (h c hc)]
    rfl
  have hlower : lowerCase text = text.map id :=
    List.map_congr_left fun c hc => toLower_of_isNotation (h c hc)
  rw [hkept, hlower, List.map_id]

theorem dropBlanks_normalize (text : String) :
    dropBlanks (normalize text) = dropBlanks text := by
  simp [normalize, dropBlanks]

theorem plainText_normalize (text : String) :
    plainText (normalize text) = plainText text := by
  rw [plainText, dropBlanks_normalize, plainText]

theorem normalize_normalize (text : String) : normalize (normalize text) = normalize text := by
  rw [normalize, dropBlanks_normalize, normalize]

/-! ## Numbers -/

/-- The numeral that a number is printed as. -/
def Numeral.ofNat (n : Nat) : Numeral where
  digits := Nat.toDigits 10 n
  ne_nil := Nat.toDigits_ne_nil
  isDigit := fun _ h => Nat.isDigit_of_mem_toDigits (by decide) (by decide) h

theorem Numeral.value_ofNat (n : Nat) : (ofNat n).value = n :=
  Nat.ofDigitChars_ten_toDigits

theorem toList_toString (n : Nat) : (toString n).toList = (Numeral.ofNat n).digits :=
  Nat.toList_repr

/-! ## Groups -/

def GroupText.ofDice (dice : Dice) : GroupText :=
  ⟨.ofNat dice.count, .ofNat dice.sides⟩

theorem GroupText.dice_ofDice (dice : Dice) : (ofDice dice).dice = dice := by
  rw [GroupText.dice, ofDice, Numeral.value_ofNat, Numeral.value_ofNat]

theorem toList_toString_dice (dice : Dice) :
    (toString dice).toList = (GroupText.ofDice dice).text := by
  show (toString dice.count ++ "d" ++ toString dice.sides).toList = _
  rw [String.toList_append, String.toList_append, toList_toString, toList_toString]
  simp [GroupText.text, GroupText.ofDice]

theorem plainText_dice (dice : Dice) :
    plainText (toString dice) = (GroupText.ofDice dice).text := by
  rw [plainText, dropBlanks, toList_toString_dice]
  exact lowerCase_filter_of_isNotation (GroupText.ofDice dice).isNotation

/-! ## Modifiers -/

/-- The modifier that a number is printed as; zero is not printed. -/
def ModifierText.ofInt? (m : Int) : Option ModifierText :=
  if m = 0 then none else some ⟨m < 0, .ofNat m.natAbs⟩

theorem ModifierText.value_ofInt? (m : Int) : ((ofInt? m).map value).getD 0 = m := by
  unfold ofInt?
  split
  · next hzero => exact hzero.symm
  · simp only [Option.map_some, Option.getD_some, value, Numeral.value_ofNat,
      decide_eq_true_eq]
    split <;> omega

theorem toString_int (m : Int) :
    toString m = (if m < 0 then "-" else "") ++ toString m.natAbs := by
  rw [Int.toString_eq_repr, Int.repr_eq_if]
  cases m with
  | ofNat n => simp [Int.not_lt.mpr (Int.natCast_nonneg n)]
  | negSucc n => simp

theorem toList_modifierSuffix (m : Int) :
    (modifierSuffix m).toList =
      ((ModifierText.ofInt? m).map fun text => ' ' :: text.text).getD [] := by
  unfold modifierSuffix ModifierText.ofInt?
  rcases Int.lt_trichotomy m 0 with hneg | rfl | hpos
  · rw [if_neg (Int.not_lt.mpr (Int.le_of_lt hneg)), if_pos hneg, if_neg (Int.ne_of_lt hneg),
      toString_int, if_pos hneg, String.toList_append, String.toList_append, toList_toString]
    simp [ModifierText.text, ModifierText.signChar, hneg]
  · rfl
  · have hnot : ¬ m < 0 := Int.not_lt.mpr (Int.le_of_lt hpos)
    rw [if_pos hpos, if_neg (Int.ne_of_gt hpos), toString_int, if_neg hnot, String.toList_append,
      String.empty_append, toList_toString]
    simp [ModifierText.text, ModifierText.signChar, hnot]

theorem plainText_modifierSuffix (m : Int) :
    plainText (modifierSuffix m) =
      ((ModifierText.ofInt? m).map ModifierText.text).getD [] := by
  rw [plainText, dropBlanks, toList_modifierSuffix]
  cases ModifierText.ofInt? m with
  | none => rfl
  | some text =>
      -- the blank before the sign is dropped
      show lowerCase (text.text.filter fun c => !isBlank c) = text.text
      exact lowerCase_filter_of_isNotation text.isNotation

/-! ## Phrases -/

def Phrase.ofDice (first : Dice) (more : List Dice) (m : Int) : Phrase :=
  ⟨.ofDice first, more.map .ofDice, ModifierText.ofInt? m⟩

theorem Phrase.dice_ofDice (first : Dice) (more : List Dice) (m : Int) :
    (ofDice first more m).dice = first :: more := by
  simp [Phrase.dice, ofDice, GroupText.dice_ofDice, Function.comp_def]

theorem Phrase.modifier_ofDice (first : Dice) (more : List Dice) (m : Int) :
    (ofDice first more m).modifier = m :=
  ModifierText.value_ofInt? m

theorem plainText_groups (first : Dice) (more : List Dice) :
    plainText (" + ".intercalate ((first :: more).map toString)) =
      (GroupText.ofDice first).text ++
        (more.map GroupText.ofDice).flatMap fun g => '+' :: g.text := by
  induction more generalizing first with
  | nil => simp [plainText_dice]
  | cons second more ih =>
      have hplus : plainText " + " = ['+'] := by decide
      rw [List.map_cons, List.map_cons, String.intercalate_cons_cons, plainText_append,
        plainText_append, plainText_dice, hplus, ← List.map_cons, ih]
      simp

theorem plainText_printed (first : Dice) (more : List Dice) (m : Int) :
    plainText (" + ".intercalate ((first :: more).map toString) ++ modifierSuffix m) =
      (Phrase.ofDice first more m).text := by
  rw [plainText_append, plainText_groups, plainText_modifierSuffix]
  simp [Phrase.text, Phrase.tailText, Phrase.ofDice]

/-! ## The round trip -/

theorem parse_printed {limits : Limits} {dice : List Dice} {m : Int} (hne : dice ≠ [])
    (hwithin : ∀ d ∈ dice, limits.Allows d) (hrange : -2 ^ 31 ≤ m ∧ m < 2 ^ 31) :
    parse limits (" + ".intercalate (dice.map toString) ++ modifierSuffix m) =
      .ok ⟨.ofGroups dice, m,
        normalize (" + ".intercalate (dice.map toString) ++ modifierSuffix m)⟩ := by
  cases dice with
  | nil => exact absurd rfl hne
  | cons first more =>
      have hdice := Phrase.dice_ofDice first more m
      have hmodifier := Phrase.modifier_ofDice first more m
      rw [parse_eq_ok_of_phrase (plainText_printed first more m).symm, Phrase.spec, hdice,
        hmodifier]
      · rw [Phrase.InRange, hmodifier]
        exact hrange
      · rw [Phrase.Within, hdice]
        exact hwithin

theorem parse_toString_spec {limits : Limits} {text : String} {spec : Spec}
    (h : parse limits text = .ok spec) : parse limits (toString spec) = .ok spec := by
  obtain ⟨phrase, ht, hrange, hwithin, rfl⟩ := parse_eq_ok_iff_phrase.mp h
  show parse limits (normalize text) = _
  rw [parse_eq_ok_of_phrase (ht.trans (plainText_normalize text).symm) hrange hwithin,
    normalize_normalize]

/-- Groups within the limits and a modifier in range, printed and read
again, are the same groups and the same modifier; and a spec that was read
is read again from its own text. -/
theorem printed_notation_reads_back (limits : Limits) :
    (∀ (dice : List Dice) (m : Int), dice ≠ [] → (∀ d ∈ dice, limits.Allows d) →
      -2 ^ 31 ≤ m ∧ m < 2 ^ 31 →
        ∃ spec,
          parse limits (" + ".intercalate (dice.map toString) ++ modifierSuffix m) = .ok spec ∧
            spec.groups = dice ∧ spec.modifier = m ∧
            (spec.shape.isComplex = false ↔ dice.length = 1)) ∧
    ∀ (text : String) (spec : Spec), parse limits text = .ok spec →
      parse limits (toString spec) = .ok spec := by
  refine ⟨?_, ?_⟩
  · intro dice m hne hwithin hrange
    exact ⟨_, parse_printed hne hwithin hrange, Shape.groups_ofGroups dice, rfl,
      Shape.isComplex_ofGroups dice⟩
  · intro text spec h
    exact parse_toString_spec h

/-- Two groups at the edge of the limits, and the least modifier there
is. -/
theorem printed_notation_reads_back_least_modifier :
    (∃ spec, parse .conservative "10d100 + 1d2 -2147483648" = .ok spec ∧
      spec.groups = [⟨10, 100⟩, ⟨1, 2⟩] ∧ spec.modifier = -2 ^ 31 ∧
      (spec.shape.isComplex = false ↔ 2 = 1)) ∧
    parse .conservative "10D 100" = .ok ⟨.simple ⟨10, 100⟩, 0, "10D100"⟩ ∧
    parse .conservative "10D100" = .ok ⟨.simple ⟨10, 100⟩, 0, "10D100"⟩ := by
  have hprinted : " + ".intercalate ([⟨10, 100⟩, ⟨1, 2⟩].map (toString : Dice → String)) ++
      modifierSuffix (-2 ^ 31) = "10d100 + 1d2 -2147483648" := by decide
  have hread : parse .conservative "10D 100" = .ok ⟨.simple ⟨10, 100⟩, 0, "10D100"⟩ := by
    decide
  have hback := (printed_notation_reads_back .conservative).1 [⟨10, 100⟩, ⟨1, 2⟩] (-2 ^ 31)
    (by decide) (by decide) (by decide)
  rw [hprinted] at hback
  exact ⟨hback, hread, (printed_notation_reads_back .conservative).2 _ _ hread⟩

end DiceRoller
