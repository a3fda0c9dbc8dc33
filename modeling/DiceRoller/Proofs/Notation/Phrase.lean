/-
# The grammar of notation, and why it is unambiguous

`Notation/Reading` describes a reader, one character at a time.  This
module says what it should read, without any reader: a `Phrase` is
notation as it is written, down to the last leading zero, and
`Phrase.text` is the text it stands for.

    phrase  = group ('+' group)* [sign numeral]
    group   = numeral 'd' numeral
    numeral = one or more of the digits 0 to 9

A text has at most one phrase (`Phrase.text_injective`).  Two facts carry
the proof: a numeral ends where its digits end, so two texts that begin
with numerals and go on with something else begin with the same numeral;
and what follows a plus sign is a group exactly if a `d` comes before the
next sign or the end.
-/
import Mathlib.Data.List.Basic
import DiceRoller.Notation.Limits
import DiceRoller.Notation.Reading

namespace DiceRoller

/-! ## Numerals -/

/-- A number as it is written: one digit or more, leading zeros allowed. -/
@[ext] structure Numeral where
  digits : List Char
  ne_nil : digits ≠ []
  isDigit : ∀ c ∈ digits, c.isDigit = true

namespace Numeral

def value (n : Numeral) : Nat :=
  Nat.ofDigitChars 10 n.digits 0

def single (c : Char) (h : c.isDigit = true) : Numeral where
  digits := [c]
  ne_nil := List.cons_ne_nil c []
  isDigit := by simpa using h

def snoc (n : Numeral) (c : Char) (h : c.isDigit = true) : Numeral where
  digits := n.digits ++ [c]
  ne_nil := by simp
  isDigit := by
    intro d hd
    rcases List.mem_append.mp hd with hd | hd
    · exact n.isDigit d hd
    · rw [List.mem_singleton.mp hd]; exact h

theorem value_single (c : Char) (h : c.isDigit = true) :
    some (single c h).value = withDigit none c := by
  simp [value, single, withDigit, Nat.ofDigitChars_cons]

theorem value_snoc (n : Numeral) (c : Char) (h : c.isDigit = true) :
    some (n.snoc c h).value = withDigit (some n.value) c := by
  simp [value, snoc, withDigit, Nat.ofDigitChars_append, Nat.ofDigitChars_cons]

theorem not_mem_digits (n : Numeral) {c : Char} (h : c.isDigit = false) :
    c ∉ n.digits := by
  intro hc
  rw [n.isDigit c hc] at h
  exact Bool.noConfusion h

end Numeral

def NoDigitAhead (text : List Char) : Prop :=
  ∀ c rest, text = c :: rest → c.isDigit = false

theorem noDigitAhead_nil : NoDigitAhead [] :=
  fun _ _ h => nomatch h

theorem noDigitAhead_cons {c : Char} (rest : List Char) (h : c.isDigit = false) :
    NoDigitAhead (c :: rest) := by
  intro d _ he
  rw [← (List.cons.inj he).1]
  exact h

theorem stretch_append_inj {p : Char → Prop} : ∀ {ds es r s : List Char},
    (∀ c ∈ ds, p c) → (∀ c ∈ es, p c) → (∀ c t, r = c :: t → ¬ p c) →
      (∀ c t, s = c :: t → ¬ p c) → ds ++ r = es ++ s → ds = es ∧ r = s
  | [], [], _, _, _, _, _, _, h => ⟨rfl, h⟩
  | [], e :: es, _, s, _, he, hr, _, h =>
      absurd (he e List.mem_cons_self) (hr e (es ++ s) h)
  | d :: ds, [], r, _, hd, _, _, hs, h =>
      absurd (hd d List.mem_cons_self) (hs d (ds ++ r) h.symm)
  | d :: ds, e :: es, r, s, hd, he, hr, hs, h => by
      obtain ⟨rfl, ht⟩ := List.cons.inj h
      have ih := stretch_append_inj (fun c hc => hd c (List.mem_cons_of_mem _ hc))
        (fun c hc => he c (List.mem_cons_of_mem _ hc)) hr hs ht
      exact ⟨by rw [ih.1], ih.2⟩

theorem Numeral.append_inj {m n : Numeral} {r s : List Char} (hr : NoDigitAhead r)
    (hs : NoDigitAhead s) (h : m.digits ++ r = n.digits ++ s) : m = n ∧ r = s := by
  obtain ⟨hd, ht⟩ := stretch_append_inj m.isDigit n.isDigit
    (fun c t he => Bool.eq_false_iff.mp (hr c t he))
    (fun c t he => Bool.eq_false_iff.mp (hs c t he)) h
  exact ⟨Numeral.ext hd, ht⟩

/-- A character that notation is written with. -/
def IsNotation (c : Char) : Prop :=
  c.isDigit = true ∨ c = 'd' ∨ c = '+' ∨ c = '-'

/-! ## Groups -/

/-- A group of dice as it is written. -/
@[ext] structure GroupText where
  count : Numeral
  sides : Numeral

namespace GroupText

def text (g : GroupText) : List Char :=
  g.count.digits ++ 'd' :: g.sides.digits

def dice (g : GroupText) : Dice :=
  ⟨g.count.value, g.sides.value⟩

theorem append_inj {g h : GroupText} {r s : List Char} (hr : NoDigitAhead r)
    (hs : NoDigitAhead s) (he : g.text ++ r = h.text ++ s) : g = h ∧ r = s := by
  simp only [text, List.append_assoc, List.cons_append] at he
  have hd (n : Numeral) (t : List Char) : NoDigitAhead ('d' :: (n.digits ++ t)) :=
    noDigitAhead_cons _ rfl
  obtain ⟨hcount, hrest⟩ := Numeral.append_inj (hd _ _) (hd _ _) he
  obtain ⟨hsides, hend⟩ := Numeral.append_inj hr hs (List.cons.inj hrest).2
  exact ⟨GroupText.ext hcount hsides, hend⟩

theorem isNotation (g : GroupText) : ∀ c ∈ g.text, IsNotation c := by
  intro c hc
  rcases List.mem_append.mp hc with hcount | hrest
  · exact .inl (g.count.isDigit c hcount)
  · rcases List.mem_cons.mp hrest with rfl | hsides
    · exact .inr (.inl rfl)
    · exact .inl (g.sides.isDigit c hsides)

end GroupText

/-! ## Modifiers -/

/-- A modifier as it is written. -/
@[ext] structure ModifierText where
  negative : Bool
  number : Numeral

namespace ModifierText

def signChar (negative : Bool) : Char :=
  if negative then '-' else '+'

def text (m : ModifierText) : List Char :=
  signChar m.negative :: m.number.digits

def value (m : ModifierText) : Int :=
  if m.negative then -m.number.value else m.number.value

theorem signChar_injective {a b : Bool} (h : signChar a = signChar b) : a = b := by
  cases a <;> cases b <;> first | rfl | exact absurd h (by decide)

theorem signChar_isDigit (negative : Bool) : (signChar negative).isDigit = false := by
  cases negative <;> rfl

theorem append_inj {m n : ModifierText} {r s : List Char} (hr : NoDigitAhead r)
    (hs : NoDigitAhead s) (he : m.text ++ r = n.text ++ s) : m = n ∧ r = s := by
  obtain ⟨hsign, hrest⟩ := List.cons.inj he
  obtain ⟨hnumber, hend⟩ := Numeral.append_inj hr hs hrest
  exact ⟨ModifierText.ext (signChar_injective hsign) hnumber, hend⟩

theorem text_injective {m n : ModifierText} (h : m.text = n.text) : m = n :=
  (append_inj noDigitAhead_nil noDigitAhead_nil (congrArg (· ++ []) h)).1

theorem isNotation (m : ModifierText) : ∀ c ∈ m.text, IsNotation c := by
  intro c hc
  rcases List.mem_cons.mp hc with rfl | hnumber
  · cases m.negative with
    | false => exact .inr (.inr (.inl rfl))
    | true => exact .inr (.inr (.inr rfl))
  · exact .inl (m.number.isDigit c hnumber)

end ModifierText

/-! ## Phrases -/

/-- Notation as it is written. -/
@[ext] structure Phrase where
  first : GroupText
  more : List GroupText
  ending : Option ModifierText

namespace Phrase

/-- The characters after the first group. -/
def tailText (more : List GroupText) (ending : Option ModifierText) : List Char :=
  more.flatMap (fun g => '+' :: g.text) ++ (ending.map ModifierText.text).getD []

def text (phrase : Phrase) : List Char :=
  phrase.first.text ++ tailText phrase.more phrase.ending

def dice (phrase : Phrase) : List Dice :=
  (phrase.first :: phrase.more).map GroupText.dice

/-- The modifier that is meant, zero if none is written. -/
def modifier (phrase : Phrase) : Int :=
  (phrase.ending.map ModifierText.value).getD 0

def reading (phrase : Phrase) : Reading :=
  ⟨phrase.dice, phrase.modifier⟩

@[simp] theorem tailText_cons (g : GroupText) (more : List GroupText)
    (ending : Option ModifierText) :
    tailText (g :: more) ending = '+' :: (g.text ++ tailText more ending) := by
  simp [tailText]

@[simp] theorem tailText_nil_none : tailText [] none = [] :=
  rfl

@[simp] theorem tailText_nil_some (m : ModifierText) : tailText [] (some m) = m.text :=
  rfl

theorem noDigitAhead_tailText (more : List GroupText) (ending : Option ModifierText) :
    NoDigitAhead (tailText more ending) := by
  cases more with
  | cons g more => rw [tailText_cons]; exact noDigitAhead_cons _ rfl
  | nil =>
      cases ending with
      | none => exact noDigitAhead_nil
      | some m => exact noDigitAhead_cons _ (ModifierText.signChar_isDigit m.negative)

/-- A modifier has no `d`, so it is not the beginning of further groups. -/
theorem modifier_ne_tailText_cons (m : ModifierText) (g : GroupText)
    (more : List GroupText) (ending : Option ModifierText) :
    m.text ≠ tailText (g :: more) ending := by
  intro h
  rw [tailText_cons] at h
  have hd := (List.cons.inj h).2
  have hmem : 'd' ∈ m.number.digits := by rw [hd]; simp [GroupText.text]
  exact m.number.not_mem_digits rfl hmem

theorem tailText_injective : ∀ {more more' : List GroupText}
    {ending ending' : Option ModifierText},
    tailText more ending = tailText more' ending' → more = more' ∧ ending = ending'
  | [], [], none, none, _ => ⟨rfl, rfl⟩
  | [], [], none, some m, h => nomatch h
  | [], [], some m, none, h => nomatch h
  | [], [], some m, some m', h => ⟨rfl, by rw [ModifierText.text_injective h]⟩
  | [], g :: more, none, _, h => by rw [tailText_cons] at h; exact nomatch h
  | [], g :: more, some m, e, h => absurd h (modifier_ne_tailText_cons m g more e)
  | g :: more, [], _, none, h => by rw [tailText_cons] at h; exact nomatch h
  | g :: more, [], e, some m, h => absurd h.symm (modifier_ne_tailText_cons m g more e)
  | g :: more, g' :: more', e, e', h => by
      rw [tailText_cons, tailText_cons] at h
      obtain ⟨rfl, ht⟩ := GroupText.append_inj (noDigitAhead_tailText more e)
        (noDigitAhead_tailText more' e') (List.cons.inj h).2
      obtain ⟨rfl, rfl⟩ := tailText_injective ht
      exact ⟨rfl, rfl⟩

/-- The grammar is unambiguous: a text has at most one phrase. -/
theorem text_injective {p q : Phrase} (h : p.text = q.text) : p = q := by
  obtain ⟨hfirst, htail⟩ := GroupText.append_inj (noDigitAhead_tailText _ _)
    (noDigitAhead_tailText _ _) h
  obtain ⟨hmore, hending⟩ := tailText_injective htail
  exact Phrase.ext hfirst hmore hending

theorem isNotation (phrase : Phrase) : ∀ c ∈ phrase.text, IsNotation c := by
  intro c hc
  rcases List.mem_append.mp hc with hfirst | htail
  · exact phrase.first.isNotation c hfirst
  rcases List.mem_append.mp htail with hmore | hending
  · obtain ⟨g, _, hg⟩ := List.mem_flatMap.mp hmore
    rcases List.mem_cons.mp hg with rfl | hg
    · exact .inr (.inr (.inl rfl))
    · exact g.isNotation c hg
  · cases h : phrase.ending with
    | none => rw [h] at hending; exact nomatch hending
    | some m => rw [h] at hending; exact m.isNotation c hending

end Phrase

end DiceRoller
