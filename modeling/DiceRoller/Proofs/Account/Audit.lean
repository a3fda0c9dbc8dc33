/-
# Auditing an explanation

What an explanation tells of a roll is worked out here from its text alone.
Nothing has to be known of the roll, not even its layout.

| | where it stands |
| :-- | :-- |
| whether there are pairs | the text begins with a label |
| the pairs | the numbers in round brackets |
| the values that count | the numbers in square brackets |
| the modifier | what comes after the last square bracket |

Numbers in brackets are read one character after the other
(`Bracket.numbersFrom`).  A piece of text shows the same numbers in front of
any text (`Shows`), so what an account shows is what its pieces show, one
after the other.  That a group names its dice does no harm: those numbers
are in no brackets.
-/
import Mathlib.Data.List.DropRight
import DiceRoller.Proofs.Account.Explanation
import DiceRoller.Proofs.Rolling.Sequence

namespace DiceRoller

variable {α σ τ : Type}

/-! ## Brackets -/

/-- The brackets of an account: round ones around a pair, square ones around
all other values. -/
inductive Bracket
  | square
  | round
  deriving DecidableEq, Repr

/-- Where a reader of numbers is: outside of brackets, or between them with
what it has of a number. -/
inductive Bracket.Place
  | outside
  | inside (held : Option Nat)

namespace Bracket

def opening : Bracket → Char
  | square => '['
  | round => '('

def closing : Bracket → Char
  | square => ']'
  | round => ')'

def enclose (bracket : Bracket) (values : List Nat) : List Char :=
  bracket.opening ::
    ([',', ' '].intercalate (values.map fun n => (toString n).toList) ++ [bracket.closing])

/-- The numbers between brackets in the rest of a text. -/
def numbersFrom (bracket : Bracket) : Place → List Char → List Nat
  | .outside, [] => []
  | .outside, c :: rest =>
    bracket.numbersFrom (if c = bracket.opening then .inside none else .outside) rest
  | .inside held, [] => held.toList
  | .inside held, c :: rest =>
    if c.isDigit then bracket.numbersFrom (.inside (withDigit held c)) rest
    else held.toList ++
      bracket.numbersFrom (if c = bracket.closing then .outside else .inside none) rest

def numbersIn (bracket : Bracket) (text : List Char) : List Nat :=
  bracket.numbersFrom .outside text

variable (bracket : Bracket)

theorem opening_injective {other : Bracket} (h : bracket.opening = other.opening) :
    bracket = other := by
  cases bracket <;> cases other <;> first | rfl | exact absurd h (by decide)

theorem opening_ne_closing (other : Bracket) : bracket.opening ≠ other.closing := by
  cases bracket <;> cases other <;> decide

theorem not_isNotation_opening : ¬ IsNotation bracket.opening := by
  cases bracket <;> rintro (h | h | h | h) <;> exact absurd h (by decide)

theorem not_isNotation_closing : ¬ IsNotation bracket.closing := by
  cases bracket <;> rintro (h | h | h | h) <;> exact absurd h (by decide)

theorem opening_not_mem_digits (n : Numeral) : bracket.opening ∉ n.digits := by
  intro hmem
  exact bracket.not_isNotation_opening (.inl (n.isDigit _ hmem))

theorem isDigit_closing : bracket.closing.isDigit = false :=
  Bool.eq_false_iff.mpr fun h => bracket.not_isNotation_closing (.inl h)

theorem opening_not_mem_separator : bracket.opening ∉ [',', ' '] := by
  cases bracket <;> decide

theorem closing_not_mem_separator : bracket.closing ∉ [',', ' '] := by
  cases bracket <;> decide

/-! ## Reading numbers -/

theorem numbersFrom_digits {ds : List Char} (hds : ∀ c ∈ ds, c.isDigit = true)
    (held : Option Nat) (rest : List Char) :
    bracket.numbersFrom (.inside held) (ds ++ rest) =
      bracket.numbersFrom (.inside (ds.foldl withDigit held)) rest := by
  induction ds generalizing held with
  | nil => rfl
  | cons c ds ih =>
      obtain ⟨hc, hds⟩ := List.forall_mem_cons.mp hds
      rw [List.cons_append, numbersFrom, if_pos hc, List.foldl_cons]
      exact ih hds (withDigit held c)

theorem numbersFrom_number (n : Nat) {c : Char} (hc : c.isDigit = false) (rest : List Char) :
    bracket.numbersFrom (.inside none) ((toString n).toList ++ c :: rest) =
      n :: bracket.numbersFrom (if c = bracket.closing then .outside else .inside none) rest := by
  rw [toList_toString, numbersFrom_digits bracket (Numeral.ofNat n).isDigit,
    Numeral.foldl_withDigit, Numeral.value_ofNat, numbersFrom, if_neg (Bool.eq_false_iff.mp hc)]
  rfl

theorem numbersFrom_separator {c : Char} (hc : c ∈ [',', ' ']) (rest : List Char) :
    bracket.numbersFrom (.inside none) (c :: rest) = bracket.numbersFrom (.inside none) rest := by
  have hclosing : c ≠ bracket.closing := by
    rintro rfl
    exact bracket.closing_not_mem_separator hc
  have hdigit : ¬ c.isDigit = true := by
    rcases List.mem_cons.mp hc with rfl | hblank
    · decide
    · rw [List.mem_singleton.mp hblank]
      decide
  rw [numbersFrom, if_neg hdigit, if_neg hclosing]
  rfl

theorem numbersFrom_values (value : Nat) (values : List Nat) (rest : List Char) :
    bracket.numbersFrom (.inside none)
        ((toString value).toList ++
          ((values.flatMap fun n => [',', ' '] ++ (toString n).toList) ++ bracket.closing :: rest)) =
      value :: values ++ bracket.numbersFrom .outside rest := by
  induction values generalizing value with
  | nil =>
      rw [List.flatMap_nil, List.nil_append, numbersFrom_number bracket value bracket.isDigit_closing,
        if_pos rfl]
      rfl
  | cons next values ih =>
      have hcomma : ',' ≠ bracket.closing := by
        intro h
        exact bracket.closing_not_mem_separator (h ▸ List.mem_cons_self)
      rw [List.flatMap_cons, List.append_assoc, List.append_assoc, List.cons_append,
        numbersFrom_number bracket value rfl, if_neg hcomma, List.singleton_append,
        numbersFrom_separator bracket (by decide), ih next]
      rfl

end Bracket

/-! ## What a text shows -/

/-- The text shows these numbers between brackets, whatever comes after
it. -/
def Shows (bracket : Bracket) (text : List Char) (values : List Nat) : Prop :=
  ∀ rest, bracket.numbersFrom .outside (text ++ rest) =
    values ++ bracket.numbersFrom .outside rest

namespace Shows

variable {bracket : Bracket} {text text' : List Char} {values values' : List Nat}
  {u : α → List Char} {v : α → List Nat}

theorem numbersIn_eq (h : Shows bracket text values) : bracket.numbersIn text = values := by
  have hend := h []
  rw [List.append_nil, Bracket.numbersFrom, List.append_nil] at hend
  exact hend

theorem nil : Shows bracket [] [] :=
  fun _ => rfl

theorem append (h : Shows bracket text values) (h' : Shows bracket text' values') :
    Shows bracket (text ++ text') (values ++ values') := by
  intro rest
  rw [List.append_assoc, h, h', List.append_assoc]

theorem plain (h : bracket.opening ∉ text) : Shows bracket text [] := by
  intro rest
  induction text with
  | nil => rfl
  | cons c text ih =>
      rw [List.cons_append, Bracket.numbersFrom, if_neg (List.ne_of_not_mem_cons h).symm]
      exact ih (List.not_mem_of_not_mem_cons h)

theorem flatMap (h : ∀ a, Shows bracket (u a) (v a)) (as : List α) :
    Shows bracket (as.flatMap u) (as.flatMap v) := by
  induction as with
  | nil => exact nil
  | cons a as ih => exact (h a).append ih

theorem separated (h : ∀ a, Shows bracket (u a) (v a)) {sep : List Char}
    (hsep : bracket.opening ∉ sep) (as : List α) :
    Shows bracket (sep.intercalate (as.map u)) (as.flatMap v) := by
  cases as with
  | nil => exact nil
  | cons a as =>
      rw [Legible.intercalate_map_cons, List.flatMap_cons]
      exact (h a).append (flatMap (fun b => (plain hsep).append (h b)) as)

theorem separated_nothing (h : ∀ a, Shows bracket (u a) []) {sep : List Char}
    (hsep : bracket.opening ∉ sep) (as : List α) :
    Shows bracket (sep.intercalate (as.map u)) [] := by
  have hnothing : (as.flatMap fun _ => ([] : List Nat)) = [] :=
    List.flatMap_eq_nil_iff.mpr fun _ _ => rfl
  rw [← hnothing]
  exact separated h hsep as

theorem enclose (bracket : Bracket) (values : List Nat) :
    Shows bracket (bracket.enclose values) values := by
  intro rest
  rw [Bracket.enclose, List.cons_append, List.append_assoc, Bracket.numbersFrom, if_pos rfl]
  cases values with
  | cons value values =>
      rw [Legible.intercalate_map_cons, List.append_assoc, List.singleton_append]
      exact bracket.numbersFrom_values value values rest
  | nil =>
      rw [List.map_nil, List.intercalate_nil, List.nil_append, List.singleton_append,
        Bracket.numbersFrom, if_neg (Bool.eq_false_iff.mp bracket.isDigit_closing), if_pos rfl]
      rfl

theorem enclose_other {other : Bracket} (h : bracket ≠ other) (values : List Nat) :
    Shows bracket (other.enclose values) [] := by
  have hopening : bracket.opening ∉ [other.opening] := by
    intro hmem
    exact h (bracket.opening_injective (List.mem_singleton.mp hmem))
  have hclosing : bracket.opening ∉ [other.closing] := by
    intro hmem
    exact bracket.opening_ne_closing other (List.mem_singleton.mp hmem)
  have hnumber (n : Nat) : Shows bracket (toString n).toList [] := by
    rw [toList_toString]
    exact plain (bracket.opening_not_mem_digits _)
  have hvalues := separated_nothing hnumber bracket.opening_not_mem_separator values
  exact (plain hopening).append (hvalues.append (plain hclosing))

end Shows

/-! ## What an account shows -/

theorem toList_bracketed_eq (values : List Nat) :
    (bracketed values).toList = Bracket.square.enclose values :=
  toList_bracketed values

theorem toList_pairText_eq (pair : Nat × Nat) :
    (Hand.pairText pair).toList = Bracket.round.enclose [pair.1, pair.2] := by
  rw [toList_pairText]
  simp [Bracket.enclose, Bracket.opening, Bracket.closing, List.intercalate_cons_cons]

namespace Hand

theorem shows_inPairs {bracket : Bracket} {keep : Keep} {pairs : List (Nat × Nat)}
    {shown counted : List Nat}
    (hpairs : Shows bracket
      ([',', ' '].intercalate (pairs.map fun pair => (pairText pair).toList)) shown)
    (hcounted : Shows bracket (bracketed (pairs.map keep.pick)).toList counted) :
    Shows bracket (inPairs keep pairs).account.toList (shown ++ counted) := by
  have hlabel : Shows bracket keep.label.toList [] :=
    .plain (by cases bracket <;> cases keep <;> decide)
  have hcolon : Shows bracket [':', ' '] [] := .plain (by cases bracket <;> decide)
  have harrow : Shows bracket [' ', '-', '>', ' '] [] := .plain (by cases bracket <;> decide)
  rw [toList_account_inPairs]
  exact (hlabel.append (hcolon.append hpairs)).append (harrow.append hcounted)

theorem shows_rolled (rolled : Rolled) : Shows .square (toString rolled).toList rolled.values := by
  have hdice : Bracket.square.opening ∉ (GroupText.ofDice rolled.dice).text := by
    intro hmem
    exact Bracket.square.not_isNotation_opening ((GroupText.ofDice rolled.dice).isNotation _ hmem)
  have hcolon : Shows .square [':'] [] := .plain (by decide)
  rw [toList_rolled, toList_toString_dice, toList_bracketed_eq]
  exact (Shows.plain hdice).append (hcolon.append (.enclose .square rolled.values))

theorem shows_selected (hand : Hand) : Shows .square hand.account.toList hand.selected := by
  cases hand with
  | single values =>
      rw [toList_account_single, toList_bracketed_eq]
      exact .enclose .square values
  | inGroups rolled =>
      rw [toList_account_inGroups]
      exact .separated shows_rolled (by decide) rolled
  | inPairs keep pairs =>
      have hpair (pair : Nat × Nat) : Shows .square (pairText pair).toList [] := by
        rw [toList_pairText_eq]
        exact .enclose_other (by decide) [pair.1, pair.2]
      have hcounted := Shows.enclose .square (pairs.map keep.pick)
      rw [← toList_bracketed_eq] at hcounted
      exact shows_inPairs (.separated_nothing hpair (by decide) pairs) hcounted

theorem shows_pairs (keep : Keep) (pairs : List (Nat × Nat)) :
    Shows .round (inPairs keep pairs).account.toList (Rolls.paired pairs).values := by
  have hpair (pair : Nat × Nat) : Shows .round (pairText pair).toList [pair.1, pair.2] := by
    rw [toList_pairText_eq]
    exact .enclose .round [pair.1, pair.2]
  have hcounted : Shows .round (bracketed (pairs.map keep.pick)).toList [] := by
    rw [toList_bracketed_eq]
    exact .enclose_other (by decide) (pairs.map keep.pick)
  have hshows := shows_inPairs (.separated hpair (by decide) pairs) hcounted
  rwa [List.append_nil] at hshows

end Hand

/-! ## The modifier -/

/-- What comes after the last square bracket. -/
def suffixOf (text : List Char) : List Char :=
  text.rtakeWhile (· ≠ ']')

/-- The number after a blank and a sign, or zero. -/
def signed : List Char → Int
  | ' ' :: sign :: digits =>
    let n := (digits.foldl withDigit none).getD 0
    if sign = '-' then -n else n
  | _ => 0

theorem signed_modifierSuffix (m : Int) : signed (modifierSuffix m).toList = m := by
  have hvalue := ModifierText.value_ofInt? m
  rw [toList_modifierSuffix]
  cases hm : ModifierText.ofInt? m with
  | none =>
      rw [hm] at hvalue
      exact hvalue
  | some text =>
      rw [hm] at hvalue
      simp only [Option.map_some, Option.getD_some, ModifierText.value] at hvalue
      simp only [Option.map_some, Option.getD_some, signed, ModifierText.text,
        Numeral.foldl_withDigit, ModifierText.signChar]
      cases hsign : text.negative with
      | true => rwa [hsign] at hvalue
      | false => rwa [hsign] at hvalue

theorem modifierSuffix_eq_nil_iff {m : Int} : (modifierSuffix m).toList = [] ↔ m = 0 := by
  constructor
  · intro h
    rw [← signed_modifierSuffix m, h]
    rfl
  · rintro rfl
    rfl

theorem not_mem_modifierSuffix (m : Int) {c : Char} (hblank : c ≠ ' ') (hc : ¬ IsNotation c) :
    c ∉ (modifierSuffix m).toList := by
  rw [toList_modifierSuffix]
  cases ModifierText.ofInt? m with
  | none => exact List.not_mem_nil
  | some text =>
      intro hmem
      rcases List.mem_cons.mp hmem with heq | htext
      · exact hblank heq
      · exact hc (text.isNotation c htext)

theorem suffixOf_append {text suffix : List Char}
    (htext : text = [] ∨ [']'] <:+ text) (hsuffix : ']' ∉ suffix) :
    suffixOf (text ++ suffix) = suffix := by
  induction suffix using List.reverseRecOn with
  | nil =>
      rw [List.append_nil, suffixOf]
      rcases htext with rfl | ⟨front, rfl⟩
      · exact List.rtakeWhile_nil _
      · exact List.rtakeWhile_concat_neg _ front ']' (by decide)
  | append_singleton suffix c ih =>
      have hc : c ≠ ']' := by
        rintro rfl
        exact hsuffix (List.mem_append_right suffix List.mem_cons_self)
      rw [← List.append_assoc, suffixOf,
        List.rtakeWhile_concat_pos _ (text ++ suffix) c (decide_eq_true hc), ← suffixOf,
        ih fun h => hsuffix (List.mem_append_left [c] h)]

theorem ends_bracketed (values : List Nat) : [']'] <:+ (bracketed values).toList := by
  rw [toList_bracketed, ← List.cons_append]
  exact List.suffix_append _ [']']

theorem ends_separated {ending sep : List Char} {u : α → List Char} (h : ∀ a, ending <:+ u a)
    (a : α) (as : List α) : ending <:+ sep.intercalate ((a :: as).map u) := by
  induction as generalizing a with
  | nil =>
      rw [List.map_singleton, List.intercalate_singleton]
      exact h a
  | cons b as ih =>
      rw [List.map_cons, List.map_cons, List.intercalate_cons_cons, ← List.map_cons]
      exact (ih b).trans (List.suffix_append _ _)

namespace Hand

theorem ends_account (hand : Hand) :
    hand.account.toList = [] ∨ [']'] <:+ hand.account.toList := by
  cases hand with
  | single values => exact .inr (ends_bracketed values)
  | inPairs keep pairs =>
      rw [toList_account_inPairs]
      have hcounted := ends_bracketed (pairs.map keep.pick)
      exact .inr ((hcounted.trans (List.suffix_append [' ', '-', '>', ' '] _)).trans
        (List.suffix_append _ _))
  | inGroups rolled =>
      rw [toList_account_inGroups]
      cases rolled with
      | nil => exact .inl rfl
      | cons first more =>
          have hgroup (group : Rolled) : [']'] <:+ (toString group).toList := by
            rw [toList_rolled]
            exact ((ends_bracketed group.values).trans (List.suffix_cons ':' _)).trans
              (List.suffix_append _ _)
          exact .inr (ends_separated hgroup first more)

end Hand

/-! ## The audit -/

/-- The text begins with a label of pairs. -/
def ShowsPairs (text : List Char) : Prop :=
  Keep.higher.label.toList <+: text ∨ Keep.lower.label.toList <+: text

instance (text : List Char) : Decidable (ShowsPairs text) :=
  inferInstanceAs (Decidable (_ ∨ _))

/-- What an explanation tells. -/
structure Audit where
  rolls : Rolls
  selected : List Nat
  modifier : Int
  deriving DecidableEq, Repr

namespace Audit

/-- Works out what an explanation tells. -/
def ofExplanation (explanation : String) : Audit where
  rolls :=
    if ShowsPairs explanation.toList then
      .paired (inTwos (Bracket.round.numbersIn explanation.toList))
    else .flat (Bracket.square.numbersIn explanation.toList)
  selected := Bracket.square.numbersIn explanation.toList
  modifier := signed (suffixOf explanation.toList)

def final (audit : Audit) : Int :=
  total audit.selected + audit.modifier

end Audit

theorem not_showsPairs_cons {c : Char} {text : List Char} (hA : 'A' ≠ c) (hD : 'D' ≠ c) :
    ¬ ShowsPairs (c :: text) := by
  rintro (h | h)
  · exact notAhead_of_ne hA h
  · exact notAhead_of_ne hD h

namespace Hand

variable {r : List Char}

theorem showsPairs_inPairs (keep : Keep) (pairs : List (Nat × Nat)) :
    ShowsPairs ((inPairs keep pairs).account.toList ++ r) := by
  have hlabel : keep.label.toList <+: (inPairs keep pairs).account.toList ++ r := by
    rw [toList_account_inPairs, List.append_assoc, List.append_assoc]
    exact List.prefix_append _ _
  cases keep with
  | higher => exact .inl hlabel
  | lower => exact .inr hlabel

theorem not_showsPairs_single (values : List Nat) :
    ¬ ShowsPairs ((single values).account.toList ++ r) := by
  rw [toList_account_single, toList_bracketed]
  exact not_showsPairs_cons (by decide) (by decide)

theorem not_showsPairs_inGroups (rolled : List Rolled) (hr : AfterAccount r) :
    ¬ ShowsPairs ((inGroups rolled).account.toList ++ r) := by
  cases htext : (inGroups rolled).account.toList ++ r with
  | nil => decide
  | cons c text =>
      have hopening := opening_inGroups hr htext
      refine not_showsPairs_cons ?_ ?_
      · rintro rfl
        exact absurd hopening (by decide)
      · rintro rfl
        exact absurd hopening (by decide)

end Hand

/-- After the last bracket of an explanation is the modifier. -/
theorem suffixOf_explanation (hand : Hand) (m : Int) :
    suffixOf (hand.account ++ modifierSuffix m).toList = (modifierSuffix m).toList := by
  have hclosing : ']' ∉ (modifierSuffix m).toList :=
    not_mem_modifierSuffix m (by decide) Bracket.square.not_isNotation_closing
  rw [String.toList_append]
  exact suffixOf_append hand.ends_account hclosing

/-- What lies on the table, what counts of it and the modifier can be worked
out from an explanation. -/
theorem Audit.ofExplanation_account (hand : Hand) (m : Int) :
    ofExplanation (hand.account ++ modifierSuffix m) = ⟨hand.rolls, hand.selected, m⟩ := by
  have hnothing (bracket : Bracket) : Shows bracket (modifierSuffix m).toList [] :=
    .plain (not_mem_modifierSuffix m (by cases bracket <;> decide) bracket.not_isNotation_opening)
  have hselected : Bracket.square.numbersIn (hand.account ++ modifierSuffix m).toList =
      hand.selected := by
    have hshows := hand.shows_selected.append (hnothing .square)
    rw [List.append_nil, ← String.toList_append] at hshows
    exact hshows.numbersIn_eq
  have hafter : AfterAccount (modifierSuffix m).toList := by
    have hsuffix := Remark.nil.afterAccount m
    rwa [List.append_nil] at hsuffix
  rw [ofExplanation, hselected, suffixOf_explanation, signed_modifierSuffix, String.toList_append]
  cases hand with
  | single values =>
      rw [if_neg (Hand.not_showsPairs_single values)]
      rfl
  | inGroups rolled =>
      rw [if_neg (Hand.not_showsPairs_inGroups rolled hafter)]
      rfl
  | inPairs keep pairs =>
      have hpairs := (Hand.shows_pairs keep pairs).append (hnothing .round)
      rw [List.append_nil] at hpairs
      rw [if_pos (Hand.showsPairs_inPairs keep pairs), hpairs.numbersIn_eq, inTwos_values]
      rfl

/-- The dice of the groups are passed over. -/
example : Audit.ofExplanation "2d6:[4, 2] + 1d4:[1] -2" = ⟨.flat [4, 2, 1], [4, 2, 1], -2⟩ := by
  decide

theorem audit_of_ok {engine : Engine σ} {spec : Spec} {type : RollType} {bias : Bias} {s s' : σ}
    {outcome : Outcome} (hrun : (engine.rollSpec spec type bias).run s = .ok outcome s') :
    Audit.ofExplanation outcome.explanation =
        ⟨outcome.rolls, outcome.selected, outcome.modifier⟩ ∧
      suffixOf outcome.explanation.toList = (modifierSuffix outcome.modifier).toList ∧
      outcome.final = total outcome.selected + outcome.modifier := by
  obtain ⟨hand, _, _, rfl⟩ := rollSpec_eq_ok hrun
  exact ⟨Audit.ofExplanation_account hand spec.modifier, suffixOf_explanation hand spec.modifier,
    rfl⟩

/-- From the explanation alone all values, the values that count and the
modifier of a roll can be worked out, and from those the result.  So two
rolls with the same explanation have all of them in common, whatever was
rolled and with what. -/
theorem explanation_audit (engine : Engine σ) (spec : Spec) (type : RollType) (bias : Bias)
    (s : σ) {s' : σ} {outcome : Outcome}
    (hrun : (engine.rollSpec spec type bias).run s = .ok outcome s') :
    Audit.ofExplanation outcome.explanation =
        ⟨outcome.rolls, outcome.selected, outcome.modifier⟩ ∧
      outcome.final = (Audit.ofExplanation outcome.explanation).final ∧
      (outcome.modifier = 0 ↔ suffixOf outcome.explanation.toList = []) ∧
      ∀ (τ : Type) (engine' : Engine τ) spec' type' bias' t t' outcome',
        (engine'.rollSpec spec' type' bias').run t = .ok outcome' t' →
        outcome'.explanation = outcome.explanation →
          outcome'.rolls = outcome.rolls ∧ outcome'.selected = outcome.selected ∧
            outcome'.modifier = outcome.modifier ∧ outcome'.final = outcome.final := by
  obtain ⟨haudit, hsuffix, hfinal⟩ := audit_of_ok hrun
  refine ⟨haudit, ?_, ?_, ?_⟩
  · rw [haudit, hfinal]
    rfl
  · rw [hsuffix, modifierSuffix_eq_nil_iff]
  · intro τ engine' spec' type' bias' t t' outcome' hrun' hsame
    obtain ⟨haudit', _, hfinal'⟩ := audit_of_ok hrun'
    rw [hsame, haudit, Audit.mk.injEq] at haudit'
    obtain ⟨hrolls, hselected, hmodifier⟩ := haudit'
    refine ⟨hrolls.symm, hselected.symm, hmodifier.symm, ?_⟩
    rw [hfinal', hfinal, hselected, hmodifier]

/-- Two pairs with a bonus, and no dice at all. -/
theorem explanation_audit_two_pairs :
    (∃ outcome, (Engine.rollSpec ⟨.listed, default⟩ ⟨.simple ⟨2, 20⟩, 3, "2d20+3"⟩ .advantage
        .fair).run [7, 15, 2, 3] = .ok outcome [] ∧
      outcome.explanation = "Advantage: (7, 15), (2, 3) -> [15, 3] +3" ∧
      Audit.ofExplanation outcome.explanation = ⟨.paired [(7, 15), (2, 3)], [15, 3], 3⟩) ∧
    ∃ outcome, (Engine.rollSpec ⟨.highest, default⟩ ⟨.complex [], -3, "-3"⟩ .normal .fair).run () =
        .ok outcome () ∧
      outcome.explanation = " -3" ∧
      outcome.final = (Audit.ofExplanation outcome.explanation).final := by
  refine ⟨⟨_, rfl, by decide, ?_⟩, ⟨_, rfl, by decide, ?_⟩⟩
  · exact (explanation_audit ⟨.listed, default⟩ ⟨.simple ⟨2, 20⟩, 3, "2d20+3"⟩ .advantage .fair
      [7, 15, 2, 3] rfl).1
  · exact (explanation_audit ⟨.highest, default⟩ ⟨.complex [], -3, "-3"⟩ .normal .fair () rfl).2.1

end DiceRoller
