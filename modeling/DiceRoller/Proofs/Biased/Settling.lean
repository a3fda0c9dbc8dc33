/-
# Where a die comes to rest

A die shows its first value, and asking a source for one value after the
other would give a row of further answers.  The row is there before any of
it is drawn (`Source.shown`), and rolling again only decides how far it is
read:

| at this place | the die |
| :-- | :-- |
| a value that the bias rolls again | goes on to the next place, but not beyond `rerollLimit` |
| a value that the bias keeps | rests on it |
| a failure | is lost for this reason |

So there is one place where it ends (`Halts`), and what stands there is what
becomes of the die.  All that is drawn are the answers up to that place
(`settle_run`, `settle_drawn`).  Nothing is asked of the source, and nothing
of the numbers: they need not be such as a die has.
-/
import Mathlib.Logic.Function.Iterate
import Mathlib.Tactic.IntervalCases
import DiceRoller.Proofs.Rolling.Opposites

namespace DiceRoller

variable {σ : Type}

/-! ## Answers in a row -/

namespace Source

def answerTo (source : Source σ) (max : Nat) (s : σ) : Except DiceError Nat :=
  match (source.draw max).run s with
  | .ok value _ => .ok value
  | .error error _ => .error error

/-- The state that a request leaves, also one that fails. -/
def stateAfter (source : Source σ) (max : Nat) (s : σ) : σ :=
  endState ((source.draw max).run s)

/-- A die shows its first value, and after it what the source answers to one
request after the other. -/
def shown (source : Source σ) (first sides : Nat) (s : σ) : Nat → Except DiceError Nat
  | 0 => .ok first
  | n + 1 => source.answerTo sides ((source.stateAfter sides)^[n] s)

variable {source : Source σ} {max first value sides : Nat} {s : σ}

theorem draw_eq_ending : (source.draw max).run s =
    (⟨max, source.answerTo max s⟩ : Draw).ending (source.stateAfter max s) := by
  rw [answerTo, stateAfter]
  cases (source.draw max).run s with
  | ok value t => rfl
  | error error t => rfl

theorem shown_succ (h : source.answerTo sides s = .ok value) (n : Nat) :
    source.shown first sides s (n + 1) =
      source.shown value sides (source.stateAfter sides s) n := by
  cases n with
  | zero => exact h
  | succ n => rfl

end Source

/-- The draws that show the values of a row, up to a place. -/
def drawsUpTo (sides : Nat) (shown : Nat → Except DiceError Nat) (place : Nat) : List Draw :=
  (List.range place).map fun i => ⟨sides, shown (i + 1)⟩

@[simp] theorem length_drawsUpTo (sides : Nat) (shown : Nat → Except DiceError Nat)
    (place : Nat) : (drawsUpTo sides shown place).length = place := by
  rw [drawsUpTo, List.length_map, List.length_range]

@[simp] theorem endState_ending (draw : Draw) (s : σ) : endState (draw.ending s) = s := by
  rw [Draw.ending]
  cases draw.answer with
  | ok value => rfl
  | error error => rfl

theorem ending_eq_ok {draw : Draw} {s s' : σ} {value : Nat} (h : draw.ending s = .ok value s') :
    draw.answer = .ok value := by
  rw [Draw.ending] at h
  cases hanswer : draw.answer with
  | ok value' => rw [hanswer] at h; cases h; rfl
  | error error => rw [hanswer] at h; exact nomatch h

/-! ## With a log -/

section Logged

variable (source : Source σ) (max : Nat)

theorem logged_stateAfter (held : Source.Logged σ) : source.logged.stateAfter max held =
    ⟨source.stateAfter max held.state,
      held.log ++ [⟨max, source.answerTo max held.state⟩]⟩ := by
  simp only [Source.stateAfter, Source.answerTo, Source.logged, EStateM.run]
  cases source.draw max held.state with
  | ok value t => rfl
  | error error t => rfl

theorem logged_answerTo (held : Source.Logged σ) :
    source.logged.answerTo max held = source.answerTo max held.state := by
  simp only [Source.answerTo, Source.logged, EStateM.run]
  cases source.draw max held.state with
  | ok value t => rfl
  | error error t => rfl

theorem logged_iterate_stateAfter (first n : Nat) (s : σ) :
    (source.logged.stateAfter max)^[n] ⟨s, []⟩ =
      ⟨(source.stateAfter max)^[n] s, drawsUpTo max (source.shown first max s) n⟩ := by
  induction n with
  | zero => rfl
  | succ n ih =>
      rw [Function.iterate_succ_apply', ih, logged_stateAfter, Function.iterate_succ_apply']
      simp only [drawsUpTo, List.range_succ, List.map_append, List.map_singleton, Source.shown]

theorem logged_shown (first n : Nat) (s : σ) :
    source.logged.shown first max ⟨s, []⟩ n = source.shown first max s n := by
  cases n with
  | zero => rfl
  | succ n =>
      rw [Source.shown, logged_iterate_stateAfter source max first, logged_answerTo,
        Source.shown]

end Logged

/-! ## The place where a die ends -/

/-- A die that is rolled again as long as it shows certain values, and at
most `limit` times, ends at this place of a row. -/
structure Halts (again : Nat → Bool) (limit : Nat) (shown : Nat → Except DiceError Nat)
    (place : Nat) : Prop where
  le : place ≤ limit
  passed : ∀ i < place, ∃ value, shown i = .ok value ∧ again value = true
  rests : place < limit → ∀ value, shown place = .ok value → again value = false

theorem Halts.tail {again : Nat → Bool} {limit place : Nat}
    {shown shown' : Nat → Except DiceError Nat} (h : Halts again (limit + 1) shown (place + 1))
    (hshown : ∀ n, shown (n + 1) = shown' n) : Halts again limit shown' place where
  le := Nat.le_of_succ_le_succ h.le
  passed := by
    intro i hi
    rw [← hshown]
    exact h.passed (i + 1) (Nat.succ_lt_succ hi)
  rests := by
    intro hlt
    rw [← hshown]
    exact h.rests (Nat.succ_lt_succ hlt)

theorem exists_halts (again : Nat → Bool) (limit : Nat) (shown : Nat → Except DiceError Nat) :
    ∃ place, Halts again limit shown place := by
  induction limit generalizing shown with
  | zero => exact ⟨0, Nat.le_refl 0, nofun, nofun⟩
  | succ limit ih =>
      obtain ⟨place, hplace⟩ := ih fun n => shown (n + 1)
      by_cases hagain : ∃ value, shown 0 = .ok value ∧ again value = true
      · refine ⟨place + 1, Nat.succ_le_succ hplace.le, ?_, ?_⟩
        · intro i hi
          cases i with
          | zero => exact hagain
          | succ i => exact hplace.passed i (Nat.lt_of_succ_lt_succ hi)
        · intro hlt
          exact hplace.rests (Nat.lt_of_succ_lt_succ hlt)
      · refine ⟨0, Nat.zero_le _, nofun, ?_⟩
        intro _ value hvalue
        exact Bool.eq_false_iff.mpr fun h => hagain ⟨value, hvalue, h⟩

/-- What stands at that place becomes of the die.  The induction is on the
place, with the value on the table and the state left open. -/
theorem reroll_run {source : Source σ} {condition : Condition} {sides limit value place : Nat}
    {s : σ} (h : Halts condition.holds limit (source.shown value sides s) place) :
    (source.reroll condition sides limit value).run s =
      (⟨sides, source.shown value sides s place⟩ : Draw).ending
        ((source.stateAfter sides)^[place] s) := by
  induction place generalizing limit value s with
  | zero =>
      cases limit with
      | zero => rfl
      | succ limit =>
          have hrests : condition.holds value = false := h.rests (Nat.succ_pos limit) value rfl
          rw [Source.reroll, hrests]
          rfl
  | succ place ih =>
      obtain ⟨limit, rfl⟩ := Nat.exists_eq_succ_of_ne_zero (Nat.ne_of_gt (Nat.zero_lt_of_lt h.le))
      obtain ⟨_, hfirst, hagain⟩ := h.passed 0 (Nat.succ_pos place)
      cases hfirst
      rw [Source.reroll, if_pos hagain, EStateM.run_bind, Source.draw_eq_ending]
      cases hanswer : source.answerTo sides s with
      | ok value' =>
          rw [Function.iterate_succ_apply, Source.shown_succ hanswer]
          exact ih (h.tail (Source.shown_succ hanswer))
      | error error =>
          -- the row cannot go on after a failure
          have hplace : place = 0 := by
            by_contra hne
            obtain ⟨value', hvalue, _⟩ := h.passed 1 (by omega)
            cases hanswer.symm.trans hvalue
          subst hplace
          rw [Source.shown, Function.iterate_zero, id, hanswer]
          rfl

section Settle

variable {source : Source σ} {bias : Bias} {first sides place : Nat} {s : σ}

theorem settle_run (h : Halts (bias.rerolls sides) rerollLimit (source.shown first sides s) place) :
    (source.settle bias first sides).run s =
      (⟨sides, source.shown first sides s place⟩ : Draw).ending
        ((source.stateAfter sides)^[place] s) := by
  rw [Source.settle]
  cases hcondition : bias.rerollCondition? sides with
  | none =>
      have hplace : place = 0 := by
        by_contra hne
        obtain ⟨value, _, hagain⟩ := h.passed 0 (Nat.pos_of_ne_zero hne)
        rw [Bias.rerolls, hcondition] at hagain
        exact Bool.noConfusion hagain
      subst hplace
      rfl
  | some condition =>
      have hagain : bias.rerolls sides = condition.holds :=
        funext (Bias.rerolls_of_condition hcondition)
      rw [hagain] at h
      exact reroll_run h

/-- All that is drawn for the die is the row up to that place. -/
theorem settle_drawn
    (h : Halts (bias.rerolls sides) rerollLimit (source.shown first sides s) place) :
    (source.logged.settle bias first sides).drawn s =
      drawsUpTo sides (source.shown first sides s) place := by
  have hlogged : Halts (bias.rerolls sides) rerollLimit
      (source.logged.shown first sides ⟨s, []⟩) place := by
    rwa [funext fun n => logged_shown source sides first n s]
  rw [Rolling.drawn_eq_log, settle_run hlogged, endState_ending,
    logged_iterate_stateAfter source sides first]

end Settle

/-! ## The first value that is kept -/

namespace Bias

def keeps (bias : Bias) (sides : Nat) (answer : Except DiceError Nat) : Bool :=
  answer.toOption.any fun value => !bias.rerolls sides value

/-- The place of the first value of a row that the bias keeps, if it is
among the first `rerollLimit`, and `rerollLimit` otherwise. -/
def firstKept (bias : Bias) (sides : Nat) (shown : Nat → Except DiceError Nat) : Nat :=
  ((List.range rerollLimit).find? fun i => bias.keeps sides (shown i)).getD rerollLimit

variable (bias : Bias) (sides : Nat) (shown : Nat → Except DiceError Nat)

@[simp] theorem keeps_ok (value : Nat) :
    bias.keeps sides (.ok value) = !bias.rerolls sides value :=
  rfl

theorem firstKept_spec :
    bias.firstKept sides shown ≤ rerollLimit ∧
      (∀ i < bias.firstKept sides shown, bias.keeps sides (shown i) = false) ∧
      (bias.firstKept sides shown < rerollLimit →
        bias.keeps sides (shown (bias.firstKept sides shown)) = true) := by
  rw [firstKept]
  cases hfind : (List.range rerollLimit).find? fun i => bias.keeps sides (shown i) with
  | none =>
      refine ⟨Nat.le_refl rerollLimit, ?_, fun h => absurd h (Nat.lt_irrefl rerollLimit)⟩
      intro i hi
      simpa only [Bool.not_eq_true'] using List.find?_range_eq_none.mp hfind i hi
  | some place =>
      obtain ⟨hkept, hplace, hbefore⟩ := List.find?_range_eq_some.mp hfind
      refine ⟨Nat.le_of_lt (List.mem_range.mp hplace), ?_, fun _ => hkept⟩
      intro i hi
      simpa only [Bool.not_eq_true'] using hbefore i hi

variable {bias sides shown}

/-- A die ends at the first value kept, or at a failure on the way to it. -/
theorem halts_of_le_firstKept {place : Nat} (hle : place ≤ bias.firstKept sides shown)
    (hanswered : ∀ i < place, ∃ value, shown i = .ok value)
    (hend : place = bias.firstKept sides shown ∨ ∃ error, shown place = .error error) :
    Halts (bias.rerolls sides) rerollLimit shown place := by
  obtain ⟨hlimit, hbefore, hkept⟩ := bias.firstKept_spec sides shown
  refine ⟨hle.trans hlimit, ?_, ?_⟩
  · intro i hi
    obtain ⟨value, hvalue⟩ := hanswered i hi
    have hnot := hbefore i (Nat.lt_of_lt_of_le hi hle)
    rw [hvalue, keeps_ok, Bool.not_eq_false'] at hnot
    exact ⟨value, hvalue, hnot⟩
  · intro hlt value hvalue
    rcases hend with rfl | ⟨error, herror⟩
    · have hrests := hkept hlt
      rwa [hvalue, keeps_ok, Bool.not_eq_true'] at hrests
    · exact nomatch hvalue.symm.trans herror

end Bias

section Rests

variable {source : Source σ} {bias : Bias} {first sides : Nat} {s : σ}

theorem settle_of_kept (h : bias.rerolls sides first = false) :
    (source.settle bias first sides).run s = .ok first s ∧
      (source.logged.settle bias first sides).drawn s = [] := by
  have hhalts : Halts (bias.rerolls sides) rerollLimit (source.shown first sides s) 0 := by
    refine ⟨Nat.zero_le rerollLimit, nofun, ?_⟩
    rintro - value hvalue
    cases hvalue
    exact h
  exact ⟨settle_run hhalts, settle_drawn hhalts⟩

theorem settle_of_answered
    (h : ∀ i ≤ bias.firstKept sides (source.shown first sides s),
      ∃ value, source.shown first sides s i = .ok value) :
    ∃ value,
      source.shown first sides s (bias.firstKept sides (source.shown first sides s)) =
        .ok value ∧
      (source.settle bias first sides).run s = .ok value
        ((source.stateAfter sides)^[bias.firstKept sides (source.shown first sides s)] s) ∧
      (source.logged.settle bias first sides).drawn s =
        drawsUpTo sides (source.shown first sides s)
          (bias.firstKept sides (source.shown first sides s)) := by
  obtain ⟨value, hvalue⟩ := h _ (Nat.le_refl _)
  have hhalts := Bias.halts_of_le_firstKept (Nat.le_refl _)
    (fun i hi => h i (Nat.le_of_lt hi)) (.inl rfl)
  refine ⟨value, hvalue, ?_, settle_drawn hhalts⟩
  rw [settle_run hhalts, hvalue]
  rfl

theorem settle_of_failed {place : Nat} {error : DiceError}
    (hle : place ≤ bias.firstKept sides (source.shown first sides s))
    (hanswered : ∀ i < place, ∃ value, source.shown first sides s i = .ok value)
    (herror : source.shown first sides s place = .error error) :
    (source.settle bias first sides).run s =
        .error error ((source.stateAfter sides)^[place] s) ∧
      (source.logged.settle bias first sides).drawn s =
        drawsUpTo sides (source.shown first sides s) place := by
  have hhalts := Bias.halts_of_le_firstKept hle hanswered (.inr ⟨error, herror⟩)
  refine ⟨?_, settle_drawn hhalts⟩
  rw [settle_run hhalts, herror]
  rfl

theorem length_settle_drawn_le (source : Source σ) (bias : Bias) (first sides : Nat) (s : σ) :
    ((source.logged.settle bias first sides).drawn s).length ≤ rerollLimit := by
  obtain ⟨place, hhalts⟩ :=
    exists_halts (bias.rerolls sides) rerollLimit (source.shown first sides s)
  rw [settle_drawn hhalts, length_drawsUpTo]
  exact hhalts.le

theorem settle_value {value : Nat} {s' : σ}
    (hrun : (source.settle bias first sides).run s = .ok value s') :
    value = first ∨ ⟨sides, .ok value⟩ ∈ (source.logged.settle bias first sides).drawn s := by
  obtain ⟨place, hhalts⟩ :=
    exists_halts (bias.rerolls sides) rerollLimit (source.shown first sides s)
  rw [settle_run hhalts] at hrun
  rw [settle_drawn hhalts]
  have hvalue : source.shown first sides s place = .ok value := ending_eq_ok hrun
  cases place with
  | zero =>
      left
      cases hvalue
      rfl
  | succ n =>
      right
      rw [← hvalue]
      exact List.mem_map.mpr ⟨n, List.mem_range.mpr (Nat.lt_succ_self n), rfl⟩

end Rests

/-- A die rests on the first value that its bias keeps, or on the one after
`rerollLimit` others, and nothing is drawn beyond it; a failure before that
is the failure of the die.  So it is rolled again a hundred times at most,
shows its first value or one that was drawn, and a first value that is kept
costs nothing. -/
theorem settle_rests_at_first_kept (source : Source σ) (bias : Bias) (first sides : Nat) (s : σ) :
    (bias = .fair → (source.settle bias first sides).run s = .ok first s ∧
      (source.logged.settle bias first sides).drawn s = []) ∧
    (∀ place, bias.firstKept sides (source.shown first sides s) = place →
      ((∀ i ≤ place, ∃ value, source.shown first sides s i = .ok value) →
        ∃ value, source.shown first sides s place = .ok value ∧
          (source.settle bias first sides).run s =
            .ok value ((source.stateAfter sides)^[place] s) ∧
          (source.logged.settle bias first sides).drawn s =
            drawsUpTo sides (source.shown first sides s) place) ∧
      ∀ j error, j ≤ place → (∀ i < j, ∃ value, source.shown first sides s i = .ok value) →
        source.shown first sides s j = .error error →
          (source.settle bias first sides).run s =
            .error error ((source.stateAfter sides)^[j] s) ∧
          (source.logged.settle bias first sides).drawn s =
            drawsUpTo sides (source.shown first sides s) j) ∧
    ((source.logged.settle bias first sides).drawn s).length ≤ 100 ∧
    (∀ value s', (source.settle bias first sides).run s = .ok value s' →
      value = first ∨ ⟨sides, .ok value⟩ ∈ (source.logged.settle bias first sides).drawn s) ∧
    (bias.rerolls sides first = false →
      (source.settle bias first sides).run s = .ok first s ∧
        (source.logged.settle bias first sides).drawn s = []) := by
  refine ⟨?_, ?_, length_settle_drawn_le source bias first sides s,
    fun value s' => settle_value, settle_of_kept⟩
  · rintro rfl
    exact settle_of_kept (Bias.rerolls_fair sides first)
  · rintro place rfl
    exact ⟨settle_of_answered, fun j error => settle_of_failed⟩

/-- A die with more sides than any can have is rolled again once.  The
hundredth roll still counts, though it is a one again.  A list that comes to
its end does so amid the rolls. -/
theorem settle_rests_at_first_kept_three_dice :
    ((Source.listed.settle .lucky 9 4294967295).run [429496730, 3] = .ok 429496730 [3] ∧
      (Source.listed.logged.settle .lucky 9 4294967295).drawn [429496730, 3] =
        drawsOf 4294967295 [429496730]) ∧
    (((Source.constant 1).settle .lucky 1 20).run () = .ok 1 () ∧
      (((Source.constant 1).logged.settle .lucky 1 20).drawn ()).length = 100) ∧
    ((Source.listed.settle .unlucky 6 6).run [5, 4] = .error .exhausted [] ∧
      (Source.listed.logged.settle .unlucky 6 6).drawn [5, 4] =
        drawsOf 6 [5, 4] ++ [⟨6, .error .exhausted⟩]) := by
  refine ⟨?_, ?_, ?_⟩
  · obtain ⟨-, hrests, -⟩ :=
      settle_rests_at_first_kept .listed .lucky 9 4294967295 [429496730, 3]
    have hanswered : ∀ i ≤ 1, ∃ value,
        Source.listed.shown 9 4294967295 [429496730, 3] i = .ok value := by
      intro i hi
      interval_cases i
      · exact ⟨9, rfl⟩
      · exact ⟨429496730, rfl⟩
    obtain ⟨value, hvalue, hrun, hdrawn⟩ := (hrests 1 rfl).1 hanswered
    cases hvalue
    exact ⟨hrun, hdrawn⟩
  · obtain ⟨-, hrests, -⟩ := settle_rests_at_first_kept (.constant 1) .lucky 1 20 ()
    have hanswered : ∀ i ≤ 100, ∃ value, (Source.constant 1).shown 1 20 () i = .ok value := by
      intro i _
      cases i with
      | zero => exact ⟨1, rfl⟩
      | succ i => exact ⟨1, rfl⟩
    obtain ⟨value, hvalue, hrun, hdrawn⟩ := (hrests 100 rfl).1 hanswered
    cases hvalue
    exact ⟨hrun, by rw [hdrawn, length_drawsUpTo]⟩
  · obtain ⟨-, hrests, -⟩ := settle_rests_at_first_kept .listed .unlucky 6 6 [5, 4]
    have hanswered : ∀ i < 3, ∃ value, Source.listed.shown 6 6 [5, 4] i = .ok value := by
      intro i hi
      interval_cases i
      · exact ⟨6, rfl⟩
      · exact ⟨5, rfl⟩
      · exact ⟨4, rfl⟩
    exact (hrests 100 rfl).2 3 .exhausted (by decide) hanswered rfl

end DiceRoller
