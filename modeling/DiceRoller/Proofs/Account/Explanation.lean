/-
# The account of a roll can be read back

An explanation names all values that came up and the modifier, in one of
three layouts:

    [4, 2] +3                                the dice of a single group
    2d6:[4, 2] + 1d4:[1] +3                  groups that are added up
    Advantage: (7, 15), (2, 3) -> [15, 3] +3 pairs

The layouts are told apart by their first character: a bracket, a digit, a
letter.  If no groups are added up there is nothing to begin with, and the
explanation begins with what follows.  Inside, every list is legible since
its pieces are and its separator is no part of a piece.

A plus sign with blanks on both sides parts groups, and a sign with a blank
only before it begins a modifier.  So whatever is written after an
explanation must not look like either; nothing at all will do, and so will
a remark that begins with a blank and no sign (`Remark`).
-/
import DiceRoller.Proofs.Account.Legible
import DiceRoller.Proofs.Notation.Printing

namespace DiceRoller

/-! ## Numbers -/

theorem Numeral.exists_cons (n : Numeral) :
    ∃ d ds, n.digits = d :: ds ∧ d.isDigit = true := by
  cases h : n.digits with
  | nil => exact absurd h n.ne_nil
  | cons d ds => exact ⟨d, ds, rfl, n.isDigit d (by rw [h]; exact List.mem_cons_self)⟩

theorem notAhead_numeral (n : Numeral) {r : List Char} (hr : NoDigitAhead r) :
    NotAhead n.digits r := by
  obtain ⟨d, ds, hn, hd⟩ := n.exists_cons
  rintro ⟨t, ht⟩
  rw [hn, List.cons_append] at ht
  have hnot := hr d (ds ++ t) ht.symm
  rw [hd] at hnot
  exact Bool.noConfusion hnot

theorem Numeral.notAhead_append (n : Numeral) {c : Char} (hc : c.isDigit = false)
    {sign : List Char} (r : List Char) : NotAhead (c :: sign) (n.digits ++ r) := by
  obtain ⟨d, ds, hn, hd⟩ := n.exists_cons
  rw [hn]
  refine notAhead_of_ne ?_
  rintro rfl
  rw [hd] at hc
  exact Bool.noConfusion hc

theorem legible_nat : Legible (fun n : Nat => (toString n).toList) NoDigitAhead := by
  have hnumeral : Legible Numeral.digits NoDigitAhead := fun _ _ _ _ => Numeral.append_inj
  exact hnumeral.comap (Function.LeftInverse.injective Numeral.value_ofNat) toList_toString

theorem legible_dice : Legible (fun dice : Dice => (toString dice).toList) NoDigitAhead := by
  have hgroup : Legible GroupText.text NoDigitAhead := fun _ _ _ _ => GroupText.append_inj
  exact hgroup.comap (Function.LeftInverse.injective GroupText.dice_ofDice)
    toList_toString_dice

/-! ## Values, pairs and groups -/

theorem toList_bracketed (values : List Nat) :
    (bracketed values).toList =
      '[' :: ([',', ' '].intercalate (values.map fun n => (toString n).toList) ++ [']']) := by
  simp [bracketed, String.toList_intercalate, Function.comp_def]

theorem legible_bracketed :
    Legible (fun values : List Nat => (bracketed values).toList) fun _ => True := by
  have hvalues := legible_nat.separated [',', ' ']
    fun r => noDigitAhead_cons (' ' :: r) rfl
  have hnumber : ∀ r (n : Nat), NotAhead (toString n).toList (']' :: r) := by
    intro r n
    rw [toList_toString]
    exact notAhead_numeral _ (noDigitAhead_cons r rfl)
  have hclosed := hvalues.followed (Q := fun _ => True) (fun _ => [']']) fun _ r _ =>
    ⟨⟨noDigitAhead_cons r rfl, notAhead_of_ne (by decide)⟩, hnumber r⟩
  exact (hclosed.after ['[']).comap Function.injective_id toList_bracketed

theorem toList_pairText (pair : Nat × Nat) :
    (Hand.pairText pair).toList =
      '(' :: ((toString pair.1).toList ++
        (',' :: ' ' :: (toString pair.2).toList) ++ [')']) := by
  simp [Hand.pairText]

theorem legible_pairText :
    Legible (fun pair : Nat × Nat => (Hand.pairText pair).toList) fun _ => True := by
  have hsecond := legible_nat.after [',', ' ']
  have hboth := legible_nat.seq hsecond fun _ _ _ => noDigitAhead_cons _ rfl
  have hclosed := hboth.followed (Q := fun _ => True) (fun _ => [')'])
    fun _ r _ => noDigitAhead_cons r rfl
  exact (hclosed.after ['(']).comap Function.injective_id toList_pairText

theorem legible_pairs :
    Legible (fun pairs : List (Nat × Nat) =>
        [',', ' '].intercalate (pairs.map fun pair => (Hand.pairText pair).toList))
      fun r => NotAhead [',', ' '] r ∧ NotAhead ['('] r := by
  have hpairs := legible_pairText.separated [',', ' '] fun _ => trivial
  refine hpairs.mono fun r hr => ⟨⟨trivial, hr.1⟩, fun pair => ?_⟩
  rw [toList_pairText]
  exact hr.2.append _

theorem toList_rolled (rolled : Rolled) :
    (toString rolled).toList =
      (toString rolled.dice).toList ++ ':' :: (bracketed rolled.values).toList := by
  show (toString rolled.dice ++ ":" ++ bracketed rolled.values).toList = _
  simp

theorem legible_rolled : Legible (fun rolled : Rolled => (toString rolled).toList)
    fun _ => True := by
  have hparts := legible_dice.seq (legible_bracketed.after [':'])
    fun _ _ _ => noDigitAhead_cons _ rfl
  refine hparts.comap (f := fun rolled => (rolled.dice, rolled.values)) ?_ toList_rolled
  rintro ⟨dice, values⟩ ⟨dice', values'⟩ h
  cases h
  rfl

/-! ## The account of a hand -/

/-- Nothing follows, or something that begins with a blank. -/
def BlankAhead (text : List Char) : Prop :=
  ∀ c rest, text = c :: rest → c = ' '

theorem BlankAhead.noDigitAhead {text : List Char} (h : BlankAhead text) :
    NoDigitAhead text := by
  intro c rest he
  rw [h c rest he]
  rfl

/-- What may stand after the account of a hand: it begins with a blank, and
not with another group. -/
def AfterAccount (text : List Char) : Prop :=
  BlankAhead text ∧ NotAhead [' ', '+', ' '] text

namespace Hand

theorem toList_account_single (values : List Nat) :
    (single values).account.toList = (bracketed values).toList :=
  rfl

theorem toList_account_inGroups (rolled : List Rolled) :
    (inGroups rolled).account.toList =
      [' ', '+', ' '].intercalate (rolled.map fun r => (toString r).toList) := by
  simp [account, String.toList_intercalate, Function.comp_def]

theorem toList_account_inPairs (keep : Keep) (pairs : List (Nat × Nat)) :
    (inPairs keep pairs).account.toList =
      keep.label.toList ++
        (':' :: ' ' :: [',', ' '].intercalate (pairs.map fun pair => (pairText pair).toList)) ++
          (' ' :: '-' :: '>' :: ' ' :: (bracketed (pairs.map keep.pick)).toList) := by
  simp [account, selected, String.toList_intercalate, Function.comp_def]

theorem legible_label : Legible (fun keep : Keep => keep.label.toList) fun _ => True := by
  intro a b r s _ _ he
  cases a <;> cases b
  · exact ⟨rfl, List.append_cancel_left he⟩
  · exact absurd (List.cons.inj he).1 (by decide)
  · exact absurd (List.cons.inj he).1 (by decide)
  · exact ⟨rfl, List.append_cancel_left he⟩

theorem legible_account_inGroups :
    Legible (fun rolled => (inGroups rolled).account.toList) AfterAccount := by
  have hgroups := legible_rolled.separated [' ', '+', ' '] fun _ => trivial
  have hafter := hgroups.mono (Q := AfterAccount) fun r hr => ?_
  · exact hafter.comap Function.injective_id toList_account_inGroups
  · refine ⟨⟨trivial, hr.2⟩, fun rolled => ?_⟩
    rw [toList_rolled, toList_toString_dice, GroupText.text]
    exact ((notAhead_numeral _ hr.1.noDigitAhead).append _).append _

theorem legible_account_inPairs :
    Legible (fun p : Keep × List (Nat × Nat) => (inPairs p.1 p.2).account.toList)
      fun _ => True := by
  have hshown := legible_label.seq (legible_pairs.after [':', ' ']) fun _ _ _ => trivial
  -- the values that count follow from the pairs
  have hcounted := hshown.followed (Q := fun _ => True)
    (fun p => ' ' :: '-' :: '>' :: ' ' :: (bracketed (p.2.map p.1.pick)).toList)
    fun _ _ _ => ⟨notAhead_of_ne (by decide), notAhead_of_ne (by decide)⟩
  exact hcounted.comap Function.injective_id fun p => toList_account_inPairs p.1 p.2

theorem opening_inGroups {rolled : List Rolled} {r t : List Char} {c : Char}
    (hr : AfterAccount r) (he : (inGroups rolled).account.toList ++ r = c :: t) :
    c.isDigit = true ∨ c = ' ' := by
  rw [toList_account_inGroups] at he
  cases rolled with
  | nil => exact .inr (hr.1 c t he)
  | cons first more =>
      obtain ⟨d, ds, hcount, hd⟩ := (Numeral.ofNat first.dice.count).exists_cons
      rw [Legible.intercalate_map_cons, toList_rolled, toList_toString_dice, GroupText.text,
        GroupText.ofDice, hcount] at he
      left
      rw [← (List.cons.inj he).1]
      exact hd

theorem inGroups_ne_single {rolled : List Rolled} {values : List Nat} {r s : List Char}
    (hr : AfterAccount r) :
    (inGroups rolled).account.toList ++ r ≠ (single values).account.toList ++ s := by
  intro he
  rw [toList_account_single, toList_bracketed] at he
  exact absurd (opening_inGroups hr he) (by decide)

theorem inGroups_ne_inPairs {rolled : List Rolled} {keep : Keep} {pairs : List (Nat × Nat)}
    {r s : List Char} (hr : AfterAccount r) :
    (inGroups rolled).account.toList ++ r ≠ (inPairs keep pairs).account.toList ++ s := by
  intro he
  rw [toList_account_inPairs] at he
  cases keep with
  | higher => exact absurd (opening_inGroups hr he) (by decide)
  | lower => exact absurd (opening_inGroups hr he) (by decide)

theorem single_ne_inPairs {values : List Nat} {keep : Keep} {pairs : List (Nat × Nat)}
    {r s : List Char} :
    (single values).account.toList ++ r ≠ (inPairs keep pairs).account.toList ++ s := by
  intro he
  rw [toList_account_single, toList_bracketed, toList_account_inPairs] at he
  cases keep with
  | higher => exact absurd (List.cons.inj he).1 (by decide)
  | lower => exact absurd (List.cons.inj he).1 (by decide)

theorem legible_account : Legible (fun hand : Hand => hand.account.toList) AfterAccount := by
  intro a b r s hr hs he
  cases a with
  | single values =>
      cases b with
      | single values' =>
          obtain ⟨rfl, hend⟩ := legible_bracketed trivial trivial he
          exact ⟨rfl, hend⟩
      | inGroups rolled => exact absurd he.symm (inGroups_ne_single hs)
      | inPairs keep pairs => exact absurd he single_ne_inPairs
  | inGroups rolled =>
      cases b with
      | single values => exact absurd he (inGroups_ne_single hr)
      | inGroups rolled' =>
          obtain ⟨rfl, hend⟩ := legible_account_inGroups hr hs he
          exact ⟨rfl, hend⟩
      | inPairs keep pairs => exact absurd he (inGroups_ne_inPairs hr)
  | inPairs keep pairs =>
      cases b with
      | single values => exact absurd he.symm single_ne_inPairs
      | inGroups rolled => exact absurd he.symm (inGroups_ne_inPairs hs)
      | inPairs keep' pairs' =>
          obtain ⟨hpair, hend⟩ := @legible_account_inPairs (keep, pairs) (keep', pairs') r s
            trivial trivial he
          cases hpair
          exact ⟨rfl, hend⟩

end Hand

/-! ## The modifier -/

theorem ModifierText.ofInt?_injective : Function.Injective ofInt? := by
  intro m n h
  rw [← value_ofInt? m, h, value_ofInt?]

theorem legible_modifierSuffix : Legible (fun m => (modifierSuffix m).toList)
    fun r => NoDigitAhead r ∧ ∀ text : ModifierText, NotAhead (' ' :: text.text) r := by
  have hmodifier : Legible ModifierText.text NoDigitAhead :=
    fun _ _ _ _ => ModifierText.append_inj
  exact (hmodifier.after [' ']).optional.comap ModifierText.ofInt?_injective
    toList_modifierSuffix

/-- Nothing follows, or something that begins with a blank and no sign. -/
def Remark (text : List Char) : Prop :=
  text = [] ∨ ∃ c rest, text = ' ' :: c :: rest ∧ c ≠ '+' ∧ c ≠ '-'

namespace Remark

variable {r : List Char}

theorem nil : Remark [] :=
  .inl rfl

theorem blankAhead (hr : Remark r) : BlankAhead r := by
  intro c rest he
  rcases hr with rfl | ⟨d, more, rfl, _⟩
  · exact nomatch he
  · exact (List.cons.inj he).1.symm

theorem notAhead_sign (hr : Remark r) (negative : Bool) (more : List Char) :
    NotAhead (' ' :: ModifierText.signChar negative :: more) r := by
  rcases hr with rfl | ⟨c, rest, rfl, hplus, hminus⟩
  · exact notAhead_nil
  · refine notAhead_cons (notAhead_of_ne ?_)
    cases negative with
    | false => exact hplus.symm
    | true => exact hminus.symm

theorem afterAccount (hr : Remark r) (m : Int) :
    AfterAccount ((modifierSuffix m).toList ++ r) := by
  rw [toList_modifierSuffix]
  cases ModifierText.ofInt? m with
  | none => exact ⟨hr.blankAhead, hr.notAhead_sign false [' ']⟩
  | some text =>
      refine ⟨fun c rest he => (List.cons.inj he).1.symm, notAhead_cons ?_⟩
      show NotAhead ['+', ' '] (ModifierText.signChar text.negative :: (text.number.digits ++ r))
      cases text.negative with
      | true => exact notAhead_of_ne (by decide)
      | false =>
          -- after the sign of a modifier comes a digit, not a blank
          exact notAhead_cons (text.number.notAhead_append rfl r)

end Remark

/-- The hand and the modifier can be read from an explanation. -/
theorem legible_explanation :
    Legible (fun p : Hand × Int => (p.1.account ++ modifierSuffix p.2).toList) Remark := by
  have hmodifier : Legible (fun m => (modifierSuffix m).toList) Remark :=
    legible_modifierSuffix.mono fun r hr =>
      ⟨hr.blankAhead.noDigitAhead, fun text => hr.notAhead_sign text.negative _⟩
  have hboth := Hand.legible_account.seq hmodifier fun m r hr => hr.afterAccount m
  exact hboth.comap Function.injective_id fun p => String.toList_append

end DiceRoller
