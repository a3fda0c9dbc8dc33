/-
# The reader reads exactly the phrases

The reader of `Notation/Reading` never goes back, the grammar of
`Proofs/Notation/Phrase` never says how a text is read.  Here the two are
shown to agree.

| | |
| :-- | :-- |
| soundness | what the reader holds tells how the text so far was written (`Progress.Wrote`); a step keeps this, and at the end it is a phrase |
| completeness | the reader gets through the numerals, the groups and the modifier of a phrase one after the other |

After a plus sign and digits the reader cannot know yet whether it is in a
group or in a modifier.  `Wrote` does not decide it either: it speaks of
the groups that are complete and of the characters since, and only the
last step makes a modifier of them.

`parse_eq_ok_iff` carries the agreement over to `parse`, with blanks,
letter case and limits.
-/
import Mathlib.Algebra.Ring.Int.Defs
import DiceRoller.Notation.Parse
import DiceRoller.Proofs.Notation.Phrase

namespace DiceRoller

/-! ## Modifiers in range -/

theorem modifier?_eq_some_iff {m : ModifierText} {k : Int} :
    modifier? m.negative m.number.value = some k ↔
      k = m.value ∧ -2 ^ 31 ≤ m.value ∧ m.value < 2 ^ 31 := by
  simp only [modifier?, ModifierText.value, modifierBound]
  split <;> grind

namespace Phrase

def InRange (phrase : Phrase) : Prop :=
  -2 ^ 31 ≤ phrase.modifier ∧ phrase.modifier < 2 ^ 31

instance (phrase : Phrase) : Decidable phrase.InRange := by
  unfold InRange; infer_instance

def Within (phrase : Phrase) (limits : Limits) : Prop :=
  ∀ dice ∈ phrase.dice, limits.Allows dice

instance (phrase : Phrase) (limits : Limits) : Decidable (phrase.Within limits) := by
  unfold Within; infer_instance

theorem inRange_of_ending_none {phrase : Phrase} (h : phrase.ending = none) :
    phrase.InRange := by
  simp [InRange, modifier, h]

/-! ## Phrases put together from the left

A reader sees the last group last, so it knows a phrase as groups that are
each followed by a plus sign, then one group more. -/

/-- The phrase with one more group and an ending after groups and plus
signs. -/
def ofGroups (done : List GroupText) (last : GroupText) (ending : Option ModifierText) :
    Phrase :=
  match done with
  | [] => ⟨last, [], ending⟩
  | first :: more => ⟨first, more ++ [last], ending⟩

/-- The characters of groups that are each followed by a plus sign. -/
def openText (done : List GroupText) : List Char :=
  done.flatMap fun g => g.text ++ ['+']

@[simp] theorem openText_append (done more : List GroupText) :
    openText (done ++ more) = openText done ++ openText more :=
  List.flatMap_append

@[simp] theorem openText_singleton (g : GroupText) : openText [g] = g.text ++ ['+'] := by
  simp [openText]

theorem openText_append_group : ∀ (more : List GroupText) (last : GroupText),
    openText more ++ last.text = match more with
      | [] => last.text
      | first :: more => first.text ++ (more ++ [last]).flatMap fun g => '+' :: g.text
  | [], _ => rfl
  | [first], last => by simp [openText]
  | first :: second :: more, last => by
      have ih := openText_append_group (second :: more) last
      simp only [openText, List.flatMap_cons, List.append_assoc, List.cons_append,
        List.nil_append] at ih ⊢
      rw [ih]

theorem text_ofGroups (done : List GroupText) (last : GroupText)
    (ending : Option ModifierText) :
    (ofGroups done last ending).text =
      openText done ++ last.text ++ (ending.map ModifierText.text).getD [] := by
  rw [openText_append_group]
  cases done <;> simp [ofGroups, text, tailText]

theorem reading_ofGroups (done : List GroupText) (last : GroupText)
    (ending : Option ModifierText) :
    (ofGroups done last ending).reading =
      ⟨done.map GroupText.dice ++ [last.dice],
        (ending.map ModifierText.value).getD 0⟩ := by
  cases done <;> simp [ofGroups, reading, dice, modifier]

theorem ending_ofGroups (done : List GroupText) (last : GroupText)
    (ending : Option ModifierText) : (ofGroups done last ending).ending = ending := by
  cases done <;> rfl

end Phrase

/-! ## Soundness: what is held tells what was written -/

/-- A number that may still be without digits, and its digits. -/
inductive WroteNumber : Option Nat → List Char → Prop
  | none : WroteNumber none []
  | some (n : Numeral) : WroteNumber (some n.value) n.digits

theorem WroteNumber.digit {n : Option Nat} {ds : List Char} {c : Char}
    (h : WroteNumber n ds) (hc : c.isDigit = true) :
    WroteNumber (withDigit n c) (ds ++ [c]) := by
  cases h with
  | none => rw [← Numeral.value_single c hc]; exact .some (.single c hc)
  | some m => rw [← m.value_snoc c hc]; exact .some (m.snoc c hc)

/-- How a group in progress was written. -/
def GroupProgress.Wrote : GroupProgress → List Char → Prop
  | count n, text => WroteNumber n text
  | sides k n, text => ∃ (m : Numeral) (ds : List Char),
      m.value = k ∧ WroteNumber n ds ∧ text = m.digits ++ 'd' :: ds

/-- How notation in progress was written. -/
def Progress.Wrote : Progress → List Char → Prop
  | group done current, text => ∃ (groups : List GroupText) (rest : List Char),
      done.toList = groups.map GroupText.dice ∧ current.Wrote rest ∧
        text = Phrase.openText groups ++ rest
  | modifier _ .sign, _ => False
  | modifier done (.digits negative n), text =>
      ∃ (groups : List GroupText) (last : GroupText) (ds : List Char),
        done.toList = groups.map GroupText.dice ++ [last.dice] ∧ WroteNumber n ds ∧
          negative = true ∧ text = Phrase.openText groups ++ last.text ++ '-' :: ds

theorem GroupProgress.Wrote.step {p q : GroupProgress} {text : List Char} {c : Char}
    (h : p.Wrote text) (hs : p.step c = .ok q) : q.Wrote (text ++ [c]) := by
  cases p with
  | count n =>
      simp only [GroupProgress.step] at hs
      split at hs
      · next hc => cases hs; exact WroteNumber.digit h hc
      · cases h with
        | none => exact nomatch hs
        | some m =>
            dsimp only at hs
            split at hs
            · next hd => cases hs; subst hd; exact ⟨m, [], rfl, .none, rfl⟩
            · exact nomatch hs
  | sides k n =>
      obtain ⟨m, ds, hk, hn, rfl⟩ := h
      simp only [GroupProgress.step] at hs
      split at hs
      · next hc => cases hs; exact ⟨m, ds ++ [c], hk, hn.digit hc, by simp⟩
      · split at hs <;> exact nomatch hs

theorem GroupProgress.Wrote.finish {p : GroupProgress} {text : List Char} {dice : Dice}
    (h : p.Wrote text) (hf : p.finish = .ok dice) :
    ∃ g : GroupText, g.dice = dice ∧ text = g.text := by
  cases p with
  | count n => cases n <;> exact nomatch hf
  | sides k n =>
      obtain ⟨m, ds, rfl, hn, rfl⟩ := h
      cases hn with
      | none => exact nomatch hf
      | some n => cases hf; exact ⟨⟨m, n⟩, rfl, rfl⟩

theorem Progress.Wrote.step {p q : Progress} {text : List Char} {c : Char}
    (h : p.Wrote text) (hs : p.step c = .ok q) : q.Wrote (text ++ [c]) := by
  unfold Progress.step at hs
  split at hs
  · -- a plus sign ends the group
    obtain ⟨groups, rest, hdone, hcurrent, rfl⟩ := h
    obtain ⟨g, hg, rfl⟩ := hcurrent.finish rfl
    cases hs
    exact ⟨groups ++ [g], [], by simp [hdone, hg], .none, by simp⟩
  · -- and so does a minus sign
    obtain ⟨groups, rest, hdone, hcurrent, rfl⟩ := h
    obtain ⟨g, hg, rfl⟩ := hcurrent.finish rfl
    cases hs
    exact ⟨groups, g, [], by simp [hdone, hg], .none, rfl, rfl⟩
  · obtain ⟨groups, rest, hdone, hcurrent, rfl⟩ := h
    split at hs
    · next hstep =>
        cases hs
        exact ⟨groups, rest ++ [c], hdone, hcurrent.step hstep, by simp⟩
    · exact nomatch hs
  · next done current =>
    split at hs
    · next current' hstep =>
        cases hs
        cases current with
        | sign => exact h.elim
        | digits negative n =>
            obtain ⟨groups, last, ds, hdone, hn, hneg, rfl⟩ := h
            simp only [ModifierProgress.step] at hstep
            split at hstep
            · next hc =>
                cases hstep
                exact ⟨groups, last, ds ++ [c], hdone, hn.digit hc, hneg, by simp⟩
            · split at hstep <;> exact nomatch hstep
    · exact nomatch hs

theorem Progress.Wrote.advance {p q : Progress} {text more : List Char}
    (h : p.Wrote text) (ha : Reading.reader.advance p more = .ok q) :
    q.Wrote (text ++ more) := by
  induction more generalizing p text with
  | nil => cases ha; simpa using h
  | cons c more ih =>
      simp only [Reader.advance] at ha
      split at ha
      · next p' hs => simpa using ih (h.step hs) ha
      · cases ha

theorem wrote_start : Progress.Wrote Reading.reader.start [] :=
  ⟨[], [], rfl, .none, rfl⟩

theorem wrote_of_advance {text : List Char} {p : Progress}
    (h : Reading.reader.advance Reading.reader.start text = .ok p) : p.Wrote text :=
  wrote_start.advance h

theorem exists_phrase_of_modifier? {done : List Dice} {groups : List GroupText}
    {last : GroupText} {negative : Bool} {n : Numeral} {k : Int}
    (hdone : done = groups.map GroupText.dice ++ [last.dice])
    (hk : modifier? negative n.value = some k) :
    ∃ phrase : Phrase,
      phrase.text = Phrase.openText groups ++ last.text ++
        ModifierText.signChar negative :: n.digits ∧
      phrase.reading = ⟨done, k⟩ ∧ phrase.InRange := by
  obtain ⟨rfl, hrange⟩ := modifier?_eq_some_iff (m := ⟨negative, n⟩) |>.mp hk
  refine ⟨.ofGroups groups last (some ⟨negative, n⟩), ?_, ?_, ?_⟩
  · rw [Phrase.text_ofGroups]; rfl
  · rw [Phrase.reading_ofGroups, hdone]; rfl
  · rw [Phrase.InRange, Phrase.modifier, Phrase.ending_ofGroups]
    exact hrange

theorem Progress.Wrote.finish {p : Progress} {text : List Char} {reading : Reading}
    (h : p.Wrote text) (hf : p.finish = .ok reading) :
    ∃ phrase : Phrase, phrase.text = text ∧ phrase.reading = reading ∧ phrase.InRange := by
  unfold Progress.finish at hf
  split at hf
  · -- the digits after the last plus sign are the modifier
    next done k =>
      obtain ⟨groups, rest, hdone, hcurrent, rfl⟩ := h
      cases hcurrent with
      | some n =>
          split at hf
          · next m hm =>
              cases hf
              split at hm
              · exact nomatch hm
              · next hne =>
                  rcases List.eq_nil_or_concat groups with rfl | ⟨front, last, rfl⟩
                  · exact absurd (by simpa using hdone) hne
                  · obtain ⟨phrase, htext, hphrase⟩ :=
                      exists_phrase_of_modifier? (by simpa using hdone) hm
                    refine ⟨phrase, ?_, hphrase⟩
                    simp [htext, ModifierText.signChar]
          · exact nomatch hf
  · -- the last group is complete and nothing follows
    next done current _ =>
      obtain ⟨groups, rest, hdone, hcurrent, rfl⟩ := h
      split at hf
      · next dice hd =>
          cases hf
          obtain ⟨g, rfl, rfl⟩ := hcurrent.finish hd
          refine ⟨.ofGroups groups g none, ?_, ?_, ?_⟩
          · simp [Phrase.text_ofGroups]
          · simp [Phrase.reading_ofGroups, hdone]
          · exact Phrase.inRange_of_ending_none (Phrase.ending_ofGroups _ _ _)
      · exact nomatch hf
  · -- the digits after the minus sign are the modifier
    next done current =>
      cases current with
      | sign => exact h.elim
      | digits negative n =>
          obtain ⟨groups, last, ds, hdone, hn, rfl, rfl⟩ := h
          cases hn with
          | none => exact nomatch hf
          | some n =>
              simp only [ModifierProgress.finish, Option.bind_some] at hf
              cases hm : modifier? true n.value with
              | none => rw [hm] at hf; exact nomatch hf
              | some m =>
                  rw [hm] at hf
                  cases hf
                  exact exists_phrase_of_modifier? hdone hm

/-! ## Completeness: the reader gets through a phrase

`advance` over the pieces of a phrase, from left to right.  Digits are met
in three places, so what they do is said once, for whatever holds the
number. -/

theorem foldl_withDigit_some (ds : List Char) (n : Nat) :
    ds.foldl withDigit (some n) = some (Nat.ofDigitChars 10 ds n) := by
  induction ds generalizing n with
  | nil => rfl
  | cons c ds ih => rw [List.foldl_cons, withDigit, ih, Nat.ofDigitChars_cons]; rfl

theorem Numeral.foldl_withDigit (m : Numeral) :
    m.digits.foldl withDigit none = some m.value := by
  rw [Numeral.value]
  cases h : m.digits with
  | nil => exact absurd h m.ne_nil
  | cons c ds => rw [List.foldl_cons, withDigit, foldl_withDigit_some,
      Nat.ofDigitChars_cons]; rfl

section Advance

variable {held : Option Nat → Progress}

theorem advance_digits
    (hheld : ∀ n c, c.isDigit = true → (held n).step c = .ok (held (withDigit n c)))
    {ds : List Char} (hds : ∀ c ∈ ds, c.isDigit = true) (n : Option Nat) :
    Reading.reader.advance (held n) ds = .ok (held (ds.foldl withDigit n)) := by
  induction ds generalizing n with
  | nil => rfl
  | cons c ds ih =>
      have hstep : Reading.reader.step (held n) c = .ok (held (withDigit n c)) :=
        hheld n c (hds c List.mem_cons_self)
      simp only [Reader.advance, hstep, List.foldl_cons]
      exact ih (fun d hd => hds d (List.mem_cons_of_mem c hd)) _

theorem advance_numeral
    (hheld : ∀ n c, c.isDigit = true → (held n).step c = .ok (held (withDigit n c)))
    (m : Numeral) (rest : List Char) :
    Reading.reader.advance (held none) (m.digits ++ rest) =
      Reading.reader.advance (held (some m.value)) rest := by
  rw [Reader.advance_append, advance_digits hheld m.isDigit, m.foldl_withDigit]
  rfl

end Advance

theorem step_count_digit (done : Array Dice) (n : Option Nat) (c : Char)
    (h : c.isDigit = true) :
    Progress.step (.group done (.count n)) c =
      .ok (.group done (.count (withDigit n c))) := by
  simp [Progress.step, GroupProgress.step, h]

theorem step_sides_digit (done : Array Dice) (k : Nat) (n : Option Nat) (c : Char)
    (h : c.isDigit = true) :
    Progress.step (.group done (.sides k n)) c =
      .ok (.group done (.sides k (withDigit n c))) := by
  unfold Progress.step
  split
  · exact absurd h (by decide)
  · exact absurd h (by decide)
  · next he _ _ => cases he; simp [GroupProgress.step, h]
  · next he => exact nomatch he

theorem step_modifier_digit (done : Array Dice) (negative : Bool) (n : Option Nat)
    (c : Char) (h : c.isDigit = true) :
    Progress.step (.modifier done (.digits negative n)) c =
      .ok (.modifier done (.digits negative (withDigit n c))) := by
  simp [Progress.step, ModifierProgress.step, h]

theorem advance_group (done : Array Dice) (g : GroupText) (rest : List Char) :
    Reading.reader.advance (.group done (.count none)) (g.text ++ rest) =
      Reading.reader.advance
        (.group done (.sides g.count.value (some g.sides.value))) rest := by
  have hd : Reading.reader.step (.group done (.count (some g.count.value))) 'd' =
      .ok (.group done (.sides g.count.value none)) := rfl
  rw [GroupText.text, List.append_assoc, List.cons_append,
    advance_numeral (step_count_digit done)]
  simp only [Reader.advance, hd]
  rw [advance_numeral (step_sides_digit done g.count.value)]

/-- Reading a modifier leaves its number; after a plus sign it is held as a
count. -/
theorem advance_modifier (done : Array Dice) (k n : Nat) (m : ModifierText) :
    Reading.reader.advance (.group done (.sides k (some n))) m.text = .ok
      (if m.negative then
        .modifier (done.push ⟨k, n⟩) (.digits true (some m.number.value))
      else .group (done.push ⟨k, n⟩) (.count (some m.number.value))) := by
  rw [← List.append_nil m.text]
  cases hneg : m.negative with
  | false =>
      simp only [ModifierText.text, ModifierText.signChar, hneg]
      exact advance_numeral (step_count_digit _) m.number []
  | true =>
      simp only [ModifierText.text, ModifierText.signChar, hneg]
      exact advance_numeral (step_modifier_digit _ true) m.number []

/-- What the end of a text makes of what is held after more characters. -/
def Progress.ends (p : Progress) (more : List Char) (reading : Reading) : Prop :=
  ∃ last, Reading.reader.advance p more = .ok last ∧ last.finish = .ok reading

theorem ends_modifier (done : Array Dice) (k n : Nat) {m : ModifierText}
    (h : -2 ^ 31 ≤ m.value ∧ m.value < 2 ^ 31) :
    Progress.ends (.group done (.sides k (some n))) m.text
      ⟨(done.push ⟨k, n⟩).toList, m.value⟩ := by
  have hm : modifier? m.negative m.number.value = some m.value :=
    modifier?_eq_some_iff.mpr ⟨rfl, h⟩
  refine ⟨_, advance_modifier done k n m, ?_⟩
  cases hneg : m.negative with
  | false => rw [hneg] at hm; simp [Progress.finish, hm]
  | true => rw [hneg] at hm; simp [Progress.finish, ModifierProgress.finish, hm]

theorem ends_tailText (more : List GroupText) (ending : Option ModifierText)
    (h : ∀ m ∈ ending, -2 ^ 31 ≤ m.value ∧ m.value < 2 ^ 31)
    (done : Array Dice) (k n : Nat) :
    Progress.ends (.group done (.sides k (some n))) (Phrase.tailText more ending)
      ⟨done.toList ++ ⟨k, n⟩ :: more.map GroupText.dice,
        (ending.map ModifierText.value).getD 0⟩ := by
  induction more generalizing done k n with
  | nil =>
      cases ending with
      | none => exact ⟨_, rfl, by simp [Progress.finish, GroupProgress.finish]⟩
      | some m => simpa using ends_modifier done k n (h m rfl)
  | cons g more ih =>
      obtain ⟨last, ha, hf⟩ := ih (done.push ⟨k, n⟩) g.count.value g.sides.value
      refine ⟨last, ?_, by simpa [GroupText.dice] using hf⟩
      rw [Phrase.tailText_cons, ← ha]
      exact advance_group (done.push ⟨k, n⟩) g _

/-! ## The reader and the grammar agree -/

/-- A text is read exactly if it is a phrase with a modifier in range. -/
theorem read_eq_ok_iff_phrase {text : List Char} {reading : Reading} :
    Reading.reader.read text = .ok reading ↔
      ∃ phrase : Phrase, phrase.text = text ∧ phrase.reading = reading ∧
        phrase.InRange := by
  rw [Reader.read_eq_ok_iff]
  constructor
  · rintro ⟨last, ha, hf⟩
    exact (wrote_of_advance ha).finish hf
  · rintro ⟨phrase, rfl, rfl, hrange⟩
    have hending : ∀ m ∈ phrase.ending, -2 ^ 31 ≤ m.value ∧ m.value < 2 ^ 31 := by
      intro m hm
      simpa [Phrase.InRange, Phrase.modifier, Option.mem_def.mp hm] using hrange
    obtain ⟨last, ha, hf⟩ := ends_tailText phrase.more phrase.ending hending #[]
      phrase.first.count.value phrase.first.sides.value
    refine ⟨last, ?_, hf⟩
    rw [← ha]
    exact advance_group #[] phrase.first _

end DiceRoller
