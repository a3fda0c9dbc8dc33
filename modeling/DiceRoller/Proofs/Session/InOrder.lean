/-
# A list is rolled from front to back

With the values of a list nothing is left to chance: the first draw of a
session gives the first value, the second the second, whatever the steps
are, whether they fail, and wherever in a step a draw is made.  It follows
from the log of a session, and two facts about the list.

| | |
| :-- | :-- |
| `listed_draw` | a draw takes the first value of the list, and fails only if there is none |
| `listed_gave` | so the list at the beginning is the values given, and then the list at the end |
| `AtPlace` | the list held, and how many values it lacks; kept by every step, also by copies |
| `Step.ending` | a step fails as its last draw did |

The end of the list is therefore met by the draw that comes after as many
values as the list has, and by no other, and the step that asks for it is
the one that fails (`listed_step_runs_out`).
-/
import DiceRoller.Proofs.Session.Drawn
import DiceRoller.Proofs.Session.Lookahead

namespace DiceRoller

open Source (Counted)

variable {σ : Type}

/-! ## Draws from a list -/

theorem listed_draw {values rest : List Nat} {draw : Draw}
    (h : Source.listed.draw draw.max values = draw.ending rest) :
    (∃ value, draw.answer = .ok value ∧ values = value :: rest) ∨
      (draw.answer = .error .exhausted ∧ values = [] ∧ rest = []) := by
  obtain ⟨max, answer⟩ := draw
  cases values with
  | nil =>
      cases answer with
      | ok value => exact nomatch h
      | error error => cases h; exact .inr ⟨rfl, rfl, rfl⟩
  | cons first more =>
      cases answer with
      | error error => exact nomatch h
      | ok value => cases h; exact .inl ⟨first, rfl, rfl⟩

theorem listed_gave {values rest : List Nat} {draws : List Draw}
    (h : Source.listed.Gave values draws rest) : values = given draws ++ rest := by
  induction h with
  | nil => rfl
  | snoc hgave hdraw ih =>
      rename_i draw
      obtain ⟨max, answer⟩ := draw
      rcases listed_draw hdraw with ⟨value, rfl, hvalues⟩ | ⟨rfl, hvalues, rfl⟩
      · rw [ih, given_append, given_value, hvalues, List.append_assoc, List.singleton_append]
      · rw [ih, given_append, given_failure, hvalues, List.append_nil, List.append_nil]

theorem listed_answer {values rest : List Nat} {before after : List Draw} {draw : Draw}
    (h : Source.listed.Gave values (before ++ draw :: after) rest) :
    draw.answer = match values[(given before).length]? with
      | some value => .ok value
      | none => .error .exhausted := by
  obtain ⟨here, there, hbefore, hdraw⟩ := h.split
  have hvalues := listed_gave hbefore
  have hplace : values[(given before).length]? = here.head? := by
    rw [hvalues, List.getElem?_append_right (Nat.le_refl _), Nat.sub_self, List.head?_eq_getElem?]
  rw [hplace]
  rcases listed_draw hdraw with ⟨value, hanswer, rfl⟩ | ⟨hanswer, rfl, -⟩
  · exact hanswer
  · exact hanswer

/-! ## The place in a list -/

/-- As many values were drawn as the list lacks at the front. -/
structure AtPlace (values : List Nat) (held : Counted (List Nat)) : Prop where
  le : held.draws ≤ values.length
  left : held.state = values.drop held.draws

namespace AtPlace

variable {values : List Nat} {held : Counted (List Nat)} {engine : Engine (List Nat)}

theorem start (values : List Nat) : AtPlace values ⟨values, 0⟩ :=
  ⟨Nat.zero_le _, rfl⟩

theorem advance (h : AtPlace values held) {draws : List Draw} {next : Counted (List Nat)}
    (hgave : Source.listed.Gave held.state draws next.state)
    (hdraws : next.draws = held.draws + (given draws).length) : AtPlace values next := by
  have hstate := listed_gave hgave
  rw [h.left] at hstate
  have hlength : values.length - held.draws = (given draws).length + next.state.length := by
    rw [← List.length_drop, hstate, List.length_append]
  have hle := h.le
  refine ⟨by omega, ?_⟩
  rw [hdraws, ← List.drop_drop, hstate, List.drop_left]

theorem own (hsource : engine.source = .listed) {step : Step} (hstep : step.isAside = false)
    (h : AtPlace values held) : AtPlace values (step.take engine held).2 := by
  obtain ⟨hgave, hdraws⟩ := step.gave engine hstep held
  rw [hsource] at hgave
  exact h.advance hgave hdraws

/-- Every step keeps it, for the engine and for copies. -/
theorem step (hsource : engine.source = .listed) (step : Step) (h : AtPlace values held) :
    AtPlace values (step.take engine held).2 ∧
      ∀ copy ∈ step.copies engine held, AtPlace values copy := by
  induction step with
  | aside step ih =>
      obtain ⟨hcopy, hcopies⟩ := ih
      refine ⟨h, fun copy hmem => ?_⟩
      rcases List.mem_append.mp hmem with hmem | hmem
      · exact hcopies copy hmem
      · rw [List.mem_singleton.mp hmem]
        exact hcopy
  | _ => exact ⟨h.own hsource rfl, fun copy hmem => absurd hmem List.not_mem_nil⟩

theorem session (hsource : engine.source = .listed) (steps : List Step)
    (h : AtPlace values held) :
    ∀ reached ∈ reachedFrom engine steps held, AtPlace values reached := by
  induction steps generalizing held with
  | nil =>
      intro reached hmem
      rw [List.mem_singleton.mp hmem]
      exact h
  | cons step steps ih =>
      obtain ⟨hnext, hcopies⟩ := h.step hsource step
      intro reached hmem
      rcases List.mem_cons.mp hmem with rfl | hmem
      · exact h
      · rcases List.mem_append.mp hmem with hmem | hmem
        · exact hcopies reached hmem
        · exact ih hnext reached hmem

end AtPlace

/-! ## The end of a list -/

section End

variable {values : List Nat} {held : Counted (List Nat)} {engine : Engine (List Nat)}

theorem AtPlace.ready_iff (h : AtPlace values held) :
    (!held.state.isEmpty) = decide (held.draws < values.length) := by
  rw [h.left, Bool.eq_iff_iff]
  simp [List.drop_eq_nil_iff]

theorem AtPlace.exhausted_iff (h : AtPlace values held) {before after : List Draw} {draw : Draw}
    {rest : List Nat} (hgave : Source.listed.Gave held.state (before ++ draw :: after) rest) :
    draw.answer = .error .exhausted ↔ held.draws + (given before).length = values.length := by
  obtain ⟨here, there, hbefore, hdraw⟩ := hgave.split
  have hvalues := listed_gave hbefore
  rw [h.left] at hvalues
  have hlength : values.length - held.draws = (given before).length + here.length := by
    rw [← List.length_drop, hvalues, List.length_append]
  have hle := h.le
  rcases listed_draw hdraw with ⟨value, hanswer, rfl⟩ | ⟨hanswer, rfl, -⟩
  · rw [List.length_cons] at hlength
    rw [hanswer]
    constructor
    · intro hexhausted
      exact nomatch hexhausted
    · intro hspent
      omega
  · rw [List.length_nil] at hlength
    exact ⟨fun _ => by omega, fun _ => hanswer⟩

/-- A step that runs out of values did so at its last draw, after all
values that were left. -/
theorem AtPlace.spent_of_ranOut (hsource : engine.source = .listed) (h : AtPlace values held)
    {step : Step} (hout : (step.take engine held).1.error? = some .exhausted) :
    ∃ before max, step.drawn engine held = before ++ [⟨max, .error .exhausted⟩] ∧
      given before = values.drop held.draws := by
  have hending := step.ending engine held
  rw [Step.Ending, hout] at hending
  obtain ⟨hrefusal, -⟩ | ⟨before, max, hdrawn, -⟩ := hending
  · exact hrefusal.elim
  · refine ⟨before, max, hdrawn, ?_⟩
    obtain ⟨rest, hgave⟩ := step.drawn_gave engine held
    rw [hsource, hdrawn] at hgave
    obtain ⟨here, there, hbefore, hdraw⟩ := hgave.split
    have hvalues := listed_gave hbefore
    rcases listed_draw hdraw with ⟨value, hanswer, -⟩ | ⟨-, rfl, -⟩
    · cases hanswer
    · rw [← h.left, hvalues, List.append_nil]

theorem AtPlace.ranOut_iff (hsource : engine.source = .listed) (h : AtPlace values held)
    (step : Step) :
    (step.take engine held).1.error? = some .exhausted ↔
      ∃ before draw after, step.drawn engine held = before ++ draw :: after ∧
        held.draws + (given before).length = values.length := by
  constructor
  · intro hout
    obtain ⟨before, max, hdrawn, hspent⟩ := h.spent_of_ranOut hsource hout
    refine ⟨before, _, [], hdrawn, ?_⟩
    have hle := h.le
    rw [hspent, List.length_drop]
    omega
  · rintro ⟨before, draw, after, hdrawn, hspent⟩
    obtain ⟨rest, hgave⟩ := step.drawn_gave engine held
    have hending := step.ending engine held
    rw [hsource, hdrawn] at hgave
    obtain ⟨max, answer⟩ := draw
    obtain rfl : answer = .error .exhausted := (h.exhausted_iff hgave).mpr hspent
    rw [Step.Ending, hdrawn] at hending
    cases herror : (step.take engine held).1.error? with
    | none => rw [herror] at hending; exact absurd rfl hending.ne_error
    | some error =>
        rw [herror] at hending
        obtain ⟨-, hanswered⟩ | ⟨init, max', hdraws, hanswered⟩ := hending
        · exact absurd rfl hanswered.ne_error
        · obtain ⟨-, -, rfl, -⟩ := hanswered.eq_of_append_error hdraws.symm
          rfl

end End

/-! ## Sessions -/

/-- A session with the values of a list draws them in order: as many as
were drawn are gone from the front, no more, and no draw gives a value out
of its place, in whatever step it is made and whether the step fails or
not.  Whether there is another value can be told from their number, and
neither asking for it, which looks ahead, nor what is done with copies has
an effect on any other answer.  Only a step that asks for a value when
none is left fails for that, and then it has drawn all of them. -/
theorem listed_session_in_order (limits : Limits) (values : List Nat) (steps : List Step) :
    let engine : Engine (List Nat) := ⟨.listed, limits⟩
    let held := afterSteps engine steps ⟨values, 0⟩
    let drawn := drawnFrom engine steps ⟨values, 0⟩
    -- what is left, for the engine and for its copies
    (∀ reached ∈ reachedFrom engine steps ⟨values, 0⟩,
      reached.draws ≤ values.length ∧ reached.state = values.drop reached.draws) ∧
    -- what was drawn
    given drawn = values.take held.draws ∧
    (∀ before draw after, drawn = before ++ draw :: after →
      draw.answer = match values[(given before).length]? with
        | some value => .ok value
        | none => .error .exhausted) ∧
    -- looking ahead
    Step.ready.take engine held =
      (.ready (some (decide (held.draws < values.length))), held) ∧
    peekingSessionFrom limits steps ⟨.ofList values, 0⟩ = session engine values steps ∧
    (∀ step later, step = .ready ∨ step.isAside = true →
      (session engine values (steps ++ step :: later)).eraseIdx steps.length =
        session engine values (steps ++ later)) ∧
    -- the next step, on the engine or on a copy, and the end of the list
    ∀ step : Step,
      given (step.drawn engine held) <+: values.drop held.draws ∧
      ((step.take engine held).1.error? = some .exhausted ↔
        ∃ before draw after, step.drawn engine held = before ++ draw :: after ∧
          held.draws + (given before).length = values.length) ∧
      ((step.take engine held).1.error? = some .exhausted →
        given (step.drawn engine held) = values.drop held.draws ∧
        (step.isAside = false → (step.take engine held).2 = ⟨[], values.length⟩)) := by
  intro engine held drawn
  have hreached : ∀ reached ∈ reachedFrom engine steps ⟨values, 0⟩, AtPlace values reached :=
    (AtPlace.start values).session rfl steps
  have hheld : AtPlace values held := hreached held (afterSteps_mem_reachedFrom engine steps _)
  have hgave : Source.listed.Gave values drawn held.state :=
    (drawnFrom_gave engine steps ⟨values, 0⟩).1
  have hdraws : held.draws = 0 + (given drawn).length :=
    (drawnFrom_gave engine steps ⟨values, 0⟩).2
  refine ⟨fun reached hmem => ⟨(hreached reached hmem).le, (hreached reached hmem).left⟩,
    ?_, ?_, ?_, ?_, ?_, fun step => ⟨?_, hheld.ranOut_iff rfl step, fun hout => ?_⟩⟩
  · have hvalues : values = given drawn ++ held.state := listed_gave hgave
    rw [hdraws, Nat.zero_add, hvalues, List.take_left]
  · intro before draw after hsplit
    rw [hsplit] at hgave
    exact listed_answer hgave
  · rw [← hheld.ready_iff]
    rfl
  · exact peekingSessionFrom_eq limits steps ⟨rfl, rfl⟩
  · rintro step later hstep
    refine sessionFrom_eraseIdx engine (fun held => ?_) later
    cases step with
    | ready => rfl
    | aside inner => rfl
    | _ => exact absurd hstep (by simp [Step.isAside])
  · obtain ⟨rest, hgave⟩ := step.drawn_gave engine held
    rw [← hheld.left, listed_gave hgave]
    exact List.prefix_append _ _
  · obtain ⟨before, max, hlast, hspent⟩ := hheld.spent_of_ranOut rfl hout
    have hgiven : given (step.drawn engine held) = values.drop held.draws := by
      rw [hlast, given_append, given_failure, List.append_nil, hspent]
    refine ⟨hgiven, fun hstep => ?_⟩
    have hnext : AtPlace values (step.take engine held).2 := hheld.own rfl hstep
    have hcount := (step.gave engine hstep held).2
    have hle := hheld.le
    have hall : (step.take engine held).2.draws = values.length := by
      rw [hcount, hgiven, List.length_drop]
      omega
    have hleft := hnext.left
    rw [hall, List.drop_length] at hleft
    rw [← hleft, ← hall]

-- the copy takes the second value, and so does the step after it, before it runs out
example :
    session ⟨.listed, default⟩ [3, 9]
        [.ready, .draw 6, .aside (.rollDie 20 .fair), .rollMany 2 20 .fair, .ready] =
      [(.ready (some true), 0), (.value 3, 1), (.aside (.value 9) 2, 1),
        (.failed (.dice .exhausted), 2), (.ready (some false), 2)] := by
  rfl

end DiceRoller
