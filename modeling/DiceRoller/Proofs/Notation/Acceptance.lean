/-
# Which texts are accepted, and as what

`parse` drops blanks, lowers letters, reads and checks limits.  Together
with the agreement of reader and grammar this gives a description without
any of the stages (`parse_eq_ok_iff_phrase`): what is left of the text is a
phrase, its modifier is in range, its groups are within the limits, and
the spec repeats what the phrase says.
-/
import DiceRoller.Notation.Parse
import DiceRoller.Proofs.Notation.Recognition

namespace DiceRoller

/-- The characters that are read: no blanks, and letters in lower case. -/
def plainText (text : String) : List Char :=
  lowerCase (dropBlanks text)

/-! ## Limits, group by group -/

theorem mapM_check_of_allows {limits : Limits} {groups : List Dice}
    (h : ∀ dice ∈ groups, limits.Allows dice) : groups.mapM limits.check = .ok groups := by
  induction groups with
  | nil => rfl
  | cons dice rest ih =>
      have hd : limits.check dice = .ok dice :=
        Limits.check_eq_ok_iff.mpr ⟨h dice List.mem_cons_self, rfl⟩
      have hr := ih fun d hd => h d (List.mem_cons_of_mem _ hd)
      rw [List.mapM_cons, hd, hr]
      rfl

theorem allows_of_mapM_check {limits : Limits} {groups checked : List Dice}
    (h : groups.mapM limits.check = .ok checked) : ∀ dice ∈ groups, limits.Allows dice := by
  induction groups generalizing checked with
  | nil => exact fun _ hd => absurd hd List.not_mem_nil
  | cons dice rest ih =>
      rw [List.mapM_cons] at h
      cases hd : limits.check dice with
      | error e => rw [hd] at h; exact nomatch h
      | ok dice' =>
          cases hr : rest.mapM limits.check with
          | error e => rw [hd, hr] at h; exact nomatch h
          | ok rest' =>
              intro d hmem
              rcases List.mem_cons.mp hmem with rfl | hmem
              · exact (Limits.check_eq_ok_iff.mp hd).1
              · exact ih hr d hmem

/-- The first group from the left that is not within the limits. -/
def Limits.FirstOutside (limits : Limits) (groups : List Dice) (dice : Dice) : Prop :=
  ∃ before after, groups = before ++ dice :: after ∧ (∀ d ∈ before, limits.Allows d) ∧
    ¬ limits.Allows dice

theorem Limits.firstOutside_cons_of_allows {limits : Limits} {d dice : Dice} {rest : List Dice}
    (h : limits.Allows d) :
    limits.FirstOutside (d :: rest) dice ↔ limits.FirstOutside rest dice := by
  constructor
  · rintro ⟨before, after, hgroups, hbefore, hdice⟩
    cases before with
    | nil =>
        obtain ⟨rfl, rfl⟩ := List.cons.inj hgroups
        exact absurd h hdice
    | cons b before =>
        obtain ⟨rfl, rfl⟩ := List.cons.inj hgroups
        exact ⟨before, after, rfl, (List.forall_mem_cons.mp hbefore).2, hdice⟩
  · rintro ⟨before, after, rfl, hbefore, hdice⟩
    exact ⟨d :: before, after, rfl, List.forall_mem_cons.mpr ⟨h, hbefore⟩, hdice⟩

theorem Limits.firstOutside_cons_of_not_allows {limits : Limits} {d dice : Dice}
    {rest : List Dice} (h : ¬ limits.Allows d) :
    limits.FirstOutside (d :: rest) dice ↔ dice = d := by
  constructor
  · rintro ⟨before, after, hgroups, hbefore, -⟩
    cases before with
    | nil => exact (List.cons.inj hgroups).1.symm
    | cons b before =>
        obtain ⟨rfl, -⟩ := List.cons.inj hgroups
        exact absurd (hbefore d List.mem_cons_self) h
  · rintro rfl
    exact ⟨[], rest, rfl, fun _ hd => absurd hd List.not_mem_nil, h⟩

/-- What is wrong with the first group outside of the limits is what is
said of all of them. -/
theorem mapM_check_eq_error_iff {limits : Limits} {groups : List Dice} {error : ParseError} :
    groups.mapM limits.check = .error error ↔
      ∃ dice, limits.FirstOutside groups dice ∧ limits.check dice = .error error := by
  induction groups with
  | nil =>
      constructor
      · exact fun h => nomatch h
      · rintro ⟨dice, ⟨before, after, hgroups, -⟩, -⟩
        exact absurd hgroups (by simp)
  | cons d rest ih =>
      rw [List.mapM_cons]
      cases hd : limits.check d with
      | error e =>
          have hnot : ¬ limits.Allows d := by
            intro hallows
            rw [Limits.check_eq_ok_iff.mpr ⟨hallows, rfl⟩] at hd
            exact nomatch hd
          simp only [Limits.firstOutside_cons_of_not_allows hnot, exists_eq_left, hd]
          constructor
          · intro h; cases h; rfl
          · intro h; cases h; rfl
      | ok d' =>
          have hallows : limits.Allows d := (Limits.check_eq_ok_iff.mp hd).1
          simp only [Limits.firstOutside_cons_of_allows hallows, ← ih]
          cases rest.mapM limits.check with
          | error e => rfl
          | ok rest' =>
              constructor
              · exact fun h => nomatch h
              · exact fun h => nomatch h

/-! ## The stages of `parse` -/

theorem parse_of_blank {limits : Limits} {text : String} (h : dropBlanks text = []) :
    parse limits text = .error .empty := by
  simp only [parse, h]
  rfl

theorem parse_of_fault {limits : Limits} {text : String} {fault : Fault}
    (h : dropBlanks text ≠ []) (hread : Reading.reader.read (plainText text) = .error fault) :
    parse limits text = .error (.malformed (normalize text) fault) := by
  have hne : (dropBlanks text).isEmpty = false := by simpa using h
  rw [plainText] at hread
  simp only [parse, hne, hread]
  rfl

theorem parse_of_reading {limits : Limits} {text : String} {reading : Reading}
    (hread : Reading.reader.read (plainText text) = .ok reading) :
    parse limits text = (reading.groups.mapM limits.check).map fun groups =>
      ⟨.ofGroups groups, reading.modifier, normalize text⟩ := by
  rw [plainText] at hread
  cases hkept : dropBlanks text with
  | nil => rw [hkept] at hread; exact nomatch hread
  | cons c rest =>
      rw [hkept] at hread
      simp only [parse, hkept, hread]
      cases reading.groups.mapM limits.check <;> rfl

/-! ## From a text to a spec -/

def Phrase.spec (phrase : Phrase) (format : String) : Spec :=
  ⟨.ofGroups phrase.dice, phrase.modifier, format⟩

theorem parse_eq_ok_of_phrase {limits : Limits} {text : String} {phrase : Phrase}
    (ht : phrase.text = plainText text) (hrange : phrase.InRange)
    (hwithin : phrase.Within limits) :
    parse limits text = .ok (phrase.spec (normalize text)) := by
  have hread : Reading.reader.read (plainText text) = .ok phrase.reading :=
    read_eq_ok_iff_phrase.mpr ⟨phrase, ht, rfl, hrange⟩
  have hcheck : phrase.reading.groups.mapM limits.check = .ok phrase.dice :=
    mapM_check_of_allows hwithin
  rw [parse_of_reading hread, hcheck]
  rfl

theorem parse_eq_ok_iff_phrase {limits : Limits} {text : String} {spec : Spec} :
    parse limits text = .ok spec ↔
      ∃ phrase : Phrase, phrase.text = plainText text ∧ phrase.InRange ∧
        phrase.Within limits ∧ phrase.spec (normalize text) = spec := by
  constructor
  · intro h
    by_cases hblank : dropBlanks text = []
    · rw [parse_of_blank hblank] at h
      exact nomatch h
    cases hread : Reading.reader.read (plainText text) with
    | error fault =>
        rw [parse_of_fault hblank hread] at h
        exact nomatch h
    | ok reading =>
        obtain ⟨phrase, ht, rfl, hrange⟩ := read_eq_ok_iff_phrase.mp hread
        cases hcheck : phrase.reading.groups.mapM limits.check with
        | error e =>
            rw [parse_of_reading hread, hcheck] at h
            exact nomatch h
        | ok checked =>
            have hwithin : phrase.Within limits := allows_of_mapM_check hcheck
            rw [parse_eq_ok_of_phrase ht hrange hwithin] at h
            exact ⟨phrase, ht, hrange, hwithin, Except.ok.inj h⟩
  · rintro ⟨phrase, ht, hrange, hwithin, rfl⟩
    exact parse_eq_ok_of_phrase ht hrange hwithin

/-- A text is accepted exactly if, without blanks and in lower case, it is
a phrase with a modifier in range and groups within the limits.  There is
one such phrase at most, and the spec says what it says. -/
theorem parse_accepts_exactly (limits : Limits) (text : String) :
    ((∃ spec, parse limits text = .ok spec) ↔
      ∃ phrase : Phrase, phrase.text = plainText text ∧ phrase.InRange ∧
        phrase.Within limits) ∧
    (∀ p q : Phrase, p.text = plainText text → q.text = plainText text → p = q) ∧
    ∀ (spec : Spec) (phrase : Phrase), parse limits text = .ok spec →
      phrase.text = plainText text →
        spec.groups = phrase.dice ∧ spec.modifier = phrase.modifier ∧
          spec.format = String.ofList (dropBlanks text) ∧
          (spec.shape.isComplex = false ↔ phrase.dice.length = 1) := by
  refine ⟨⟨?_, ?_⟩, ?_, ?_⟩
  · rintro ⟨spec, h⟩
    obtain ⟨phrase, ht, hrange, hwithin, _⟩ := parse_eq_ok_iff_phrase.mp h
    exact ⟨phrase, ht, hrange, hwithin⟩
  · rintro ⟨phrase, ht, hrange, hwithin⟩
    exact ⟨_, parse_eq_ok_iff_phrase.mpr ⟨phrase, ht, hrange, hwithin, rfl⟩⟩
  · intro p q hp hq
    exact Phrase.text_injective (hp.trans hq.symm)
  · intro spec phrase h ht
    obtain ⟨q, hq, _, _, rfl⟩ := parse_eq_ok_iff_phrase.mp h
    obtain rfl := Phrase.text_injective (ht.trans hq.symm)
    exact ⟨Shape.groups_ofGroups phrase.dice, rfl, rfl,
      Shape.isComplex_ofGroups phrase.dice⟩

/-- Blanks, a capital letter and a leading zero: two dice with six sides,
and three less. -/
theorem parse_accepts_exactly_two_dice :
    ∃ spec, parse .conservative " 2D6 -0 3" = .ok spec ∧
      spec.groups = [⟨2, 6⟩] ∧ spec.modifier = -3 ∧
      spec.format = String.ofList (dropBlanks " 2D6 -0 3") ∧
      (spec.shape.isComplex = false ↔ 1 = 1) := by
  have ht : (⟨⟨.single '2' rfl, .single '6' rfl⟩, [],
      some ⟨true, (Numeral.single '0' rfl).snoc '3' rfl⟩⟩ : Phrase).text =
        plainText " 2D6 -0 3" := by decide
  have haccepts := parse_accepts_exactly .conservative " 2D6 -0 3"
  obtain ⟨spec, hspec⟩ := haccepts.1.mpr ⟨_, ht, by decide, by decide⟩
  exact ⟨spec, hspec, haccepts.2.2 spec _ hspec ht⟩

end DiceRoller
