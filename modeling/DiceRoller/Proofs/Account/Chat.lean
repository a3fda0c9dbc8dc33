/-
# A roll can be read back from its summary

The summary of a roll has two lines, and every field of the outcome can be
found in them, directly or through the hand that was rolled:

    🎲 1d20+2: 17 (Advantage) 🍀
    Advantage: (7, 15) -> [15] +2 ⚠️

The notation ends at the first colon, since notation that was read has
none (`colon_not_mem_format`).  The rest of the first line is the total and
up to three marks, each of which is absent or begins in its own way.  The
second line is an explanation, from which hand and modifier can be read
(`legible_explanation`); the warning after it is a remark without a sign.
From the hand follow the raw values and the values that count.

Nothing here depends on how the dice were rolled, so the two rolls that are
compared may be those of different sources, under different limits.
-/
import DiceRoller.Proofs.Account.Explanation
import DiceRoller.Proofs.Rolling.Sequence

namespace DiceRoller

/-! ## The first line -/

theorem legible_int : Legible (fun m : Int => (toString m).toList) NoDigitAhead := by
  have hminus : ∀ (n : Nat) r, NoDigitAhead r → NotAhead ['-'] ((toString n).toList ++ r) := by
    intro n r _
    rw [toList_toString]
    exact (Numeral.ofNat n).notAhead_append rfl r
  have hsigned := (Legible.mark ['-']).seq legible_nat hminus
  refine hsigned.comap (f := fun m => (decide (m < 0), m.natAbs)) ?_ ?_
  · intro m n h
    simp only [Prod.mk.injEq, decide_eq_decide] at h
    omega
  · intro m
    rw [toString_int, String.toList_append]
    by_cases hneg : m < 0 <;> simp [hneg]

namespace Outcome

def typeNote (type : RollType) : String :=
  if type = .normal then "" else " (" ++ type.label ++ ")"

theorem toList_typeNote (type : RollType) :
    (typeNote type).toList =
      (type.keep?.map fun keep => ' ' :: '(' :: (keep.label.toList ++ [')'])).getD [] := by
  cases type <;> rfl

theorem legible_typeNote : Legible (fun type => (typeNote type).toList)
    (NotAhead [' ', '(']) := by
  have hlabel := (Hand.legible_label.followed (Q := fun _ => True) (fun _ => [')'])
    fun _ _ _ => trivial).after [' ', '(']
  have hnote := hlabel.optional.mono (Q := NotAhead [' ', '(']) fun r hr =>
    ⟨trivial, fun keep => hr.append _⟩
  refine hnote.comap (f := RollType.keep?) ?_ toList_typeNote
  intro type type' h
  cases type <;> cases type' <;> simp_all [RollType.keep?]

def LineEnd (text : List Char) : Prop :=
  ∃ rest, text = '\n' :: rest

theorem LineEnd.notAhead {text : List Char} (h : LineEnd text) (sign : List Char) :
    NotAhead (' ' :: sign) text := by
  obtain ⟨rest, rfl⟩ := h
  exact notAhead_of_ne (by decide)

/-- The first line after the colon: the total and the marks. -/
def headline (total : Int) (type : RollType) (lucky unlucky : Bool) : List Char :=
  (toString total).toList ++ ((typeNote type).toList ++
    ((if lucky then [' ', '🍀'] else []) ++ (if unlucky then [' ', '💀'] else [])))

theorem legible_headline :
    Legible (fun p : Int × RollType × Bool × Bool => headline p.1 p.2.1 p.2.2.1 p.2.2.2)
      LineEnd := by
  have hunlucky := (Legible.mark [' ', '💀']).mono (Q := LineEnd) fun r hr => hr.notAhead _
  have hafterLucky : ∀ (unlucky : Bool) r, LineEnd r →
      NotAhead [' ', '🍀'] ((if unlucky then [' ', '💀'] else []) ++ r) := by
    intro unlucky r hr
    exact Legible.notAhead_mark unlucky (notAhead_cons (notAhead_of_ne (by decide)))
      (hr.notAhead _)
  have hmarks := (Legible.mark [' ', '🍀']).seq hunlucky hafterLucky
  have hafterNote : ∀ (marks : Bool × Bool) r, LineEnd r →
      NotAhead [' ', '('] (((if marks.1 then [' ', '🍀'] else []) ++
        (if marks.2 then [' ', '💀'] else [])) ++ r) := by
    rintro ⟨lucky, unlucky⟩ r hr
    rw [List.append_assoc]
    refine Legible.notAhead_mark lucky (notAhead_cons (notAhead_of_ne (by decide))) ?_
    exact Legible.notAhead_mark unlucky (notAhead_cons (notAhead_of_ne (by decide)))
      (hr.notAhead _)
  refine legible_int.seq (legible_typeNote.seq hmarks hafterNote) ?_
  -- no mark begins with a digit
  rintro ⟨type, lucky, unlucky⟩ _ ⟨rest, rfl⟩
  cases type <;> cases lucky <;> cases unlucky <;> exact noDigitAhead_cons _ rfl

/-! ## Both lines -/

/-- The sign that the values were not secure. -/
def warning : List Char :=
  [' ', '⚠', '\uFE0F']

theorem toList_chatSummary (outcome : Outcome) :
    outcome.chatSummary.toList =
      '🎲' :: ' ' :: (outcome.format.toList ++ (':' :: ' ' ::
        (headline outcome.final outcome.rollType outcome.isLucky outcome.isUnlucky ++
          ('\n' :: (outcome.explanation.toList ++
            (if !outcome.isSecure then warning else [])))))) := by
  unfold chatSummary headline typeNote
  cases outcome.isLucky <;> cases outcome.isUnlucky <;> cases outcome.isSecure <;>
    simp [warning]

theorem remark_warning (unsafely : Bool) : Remark (if unsafely then warning else []) := by
  cases unsafely with
  | false => exact .nil
  | true => exact .inr ⟨'⚠', ['\uFE0F'], rfl, by decide, by decide⟩

/-- An outcome that is the record of a hand, for notation that was read. -/
structure Records (outcome : Outcome) (hand : Hand) : Prop where
  rolls : outcome.rolls = hand.rolls
  selected : outcome.selected = hand.selected
  explanation : outcome.explanation = hand.account ++ modifierSuffix outcome.modifier
  colon_not_mem : ':' ∉ outcome.format.toList

/-- The summary leaves nothing out. -/
theorem Records.eq_of_chatSummary {outcome outcome' : Outcome} {hand hand' : Hand}
    (h : outcome.Records hand) (h' : outcome'.Records hand')
    (heq : outcome.chatSummary = outcome'.chatSummary) : outcome = outcome' := by
  have hchars := congrArg String.toList heq
  rw [toList_chatSummary, toList_chatSummary] at hchars
  have hline := (List.cons.inj (List.cons.inj hchars).2).2
  -- the first colon
  obtain ⟨hformat, hcolon⟩ := stretch_append_inj (p := fun c => c ≠ ':')
    (fun c hc => ne_of_mem_of_not_mem hc h.colon_not_mem)
    (fun c hc => ne_of_mem_of_not_mem hc h'.colon_not_mem)
    (fun c t he => not_not_intro (List.cons.inj he).1.symm)
    (fun c t he => not_not_intro (List.cons.inj he).1.symm) hline
  obtain ⟨hhead, hsecond⟩ := @legible_headline
    (outcome.final, outcome.rollType, outcome.isLucky, outcome.isUnlucky)
    (outcome'.final, outcome'.rollType, outcome'.isLucky, outcome'.isUnlucky) _ _
    ⟨_, rfl⟩ ⟨_, rfl⟩ (List.cons.inj (List.cons.inj hcolon).2).2
  simp only [Prod.mk.injEq] at hhead
  obtain ⟨hfinal, htype, hlucky, hunlucky⟩ := hhead
  -- the second line
  have hexplained := (List.cons.inj hsecond).2
  rw [h.explanation, h'.explanation] at hexplained
  obtain ⟨htold, hwarning⟩ := @legible_explanation (hand, outcome.modifier)
    (hand', outcome'.modifier) _ _ (remark_warning _) (remark_warning _) hexplained
  simp only [Prod.mk.injEq] at htold
  obtain ⟨hhand, hmodifier⟩ := htold
  have hsecure := (Legible.mark warning).injective notAhead_nil hwarning
  -- what the hand decides
  have hrolls : outcome.rolls = outcome'.rolls := by rw [h.rolls, h'.rolls, hhand]
  have hselected : outcome.selected = outcome'.selected := by
    rw [h.selected, h'.selected, hhand]
  have hexplanation : outcome.explanation = outcome'.explanation := by
    rw [h.explanation, h'.explanation, hhand, hmodifier]
  cases outcome
  cases outcome'
  simp only [mk.injEq]
  exact ⟨String.toList_inj.mp hformat, htype, hrolls, hselected, hfinal, hmodifier,
    hexplanation, hlucky, hunlucky, Bool.not_inj hsecure⟩

end Outcome

/-! ## Rolls of notation -/

theorem colon_not_mem_format {limits : Limits} {text : String} {spec : Spec}
    (h : parse limits text = .ok spec) : ':' ∉ spec.format.toList := by
  obtain ⟨phrase, ht, _, _, rfl⟩ := parse_eq_ok_iff_phrase.mp h
  intro hmem
  have hkept : ':' ∈ dropBlanks text := by simpa [Phrase.spec, normalize] using hmem
  have hread : ':' ∈ phrase.text := by
    rw [ht]
    exact List.mem_map.mpr ⟨':', hkept, rfl⟩
  exact absurd (phrase.isNotation ':' hread) (by unfold IsNotation; decide)

theorem exists_records {σ : Type} {engine : Engine σ} {text : String} {type : RollType}
    {bias : Bias} {s t : σ} {outcome : Outcome}
    (h : (engine.roll text type bias).run s = .ok outcome t) :
    ∃ hand, outcome.Records hand := by
  obtain ⟨spec, hspec, hrun⟩ := roll_eq_ok_iff.mp h
  obtain ⟨hand, _, _, rfl⟩ := rollSpec_eq_ok hrun
  exact ⟨hand, rfl, rfl, rfl, colon_not_mem_format hspec⟩

/-- Two rolls of notation with the same summary have the same outcome,
whatever was rolled, with whatever source. -/
theorem chatSummary_lossless {σ τ : Type} (engine : Engine σ) (engine' : Engine τ)
    (text text' : String) (type type' : RollType) (bias bias' : Bias) {s t : σ} {s' t' : τ}
    {outcome outcome' : Outcome}
    (h : (engine.roll text type bias).run s = .ok outcome t)
    (h' : (engine'.roll text' type' bias').run s' = .ok outcome' t')
    (heq : outcome.chatSummary = outcome'.chatSummary) : outcome = outcome' := by
  obtain ⟨hand, hrecords⟩ := exists_records h
  obtain ⟨hand', hrecords'⟩ := exists_records h'
  exact hrecords.eq_of_chatSummary hrecords' heq

/-- A source that always answers fifteen and a list of two fifteens, under
different limits and with blanks at different places. -/
theorem chatSummary_lossless_two_sources :
    ∃ outcome outcome',
      (Engine.roll ⟨.constant 15, .unbounded⟩ "1d20+2" .advantage .lucky).run () =
        .ok outcome () ∧
      (Engine.roll ⟨.listed, .conservative⟩ " 1d20 +2" .advantage .lucky).run [15, 15] =
        .ok outcome' [] ∧
      outcome.chatSummary =
        "🎲 1d20+2: 17 (Advantage) 🍀\nAdvantage: (15, 15) -> [15] +2 ⚠️" ∧
      outcome.chatSummary = outcome'.chatSummary ∧ outcome = outcome' := by
  have hconstant :
      (Engine.roll ⟨.constant 15, .unbounded⟩ "1d20+2" .advantage .lucky).run () =
        .ok ⟨"1d20+2", .advantage, .paired [(15, 15)], [15], 17, 2,
          "Advantage: (15, 15) -> [15] +2", true, false, false⟩ () := rfl
  have hlisted :
      (Engine.roll ⟨.listed, .conservative⟩ " 1d20 +2" .advantage .lucky).run [15, 15] =
        .ok ⟨"1d20+2", .advantage, .paired [(15, 15)], [15], 17, 2,
          "Advantage: (15, 15) -> [15] +2", true, false, false⟩ [] := rfl
  exact ⟨_, _, hconstant, hlisted, by decide, rfl,
    chatSummary_lossless _ _ _ _ _ _ _ _ hconstant hlisted rfl⟩

end DiceRoller
