/-
# What a session draws

Every step of a session can be taken with a log (`Proofs/Rolling/Log`):
`Step.drawn` is what one step asks for and how it is answered, and
`drawnFrom` is the same of a session, one step after the other, without
what is done with copies.

The log is genuine.  The draws lead from the state before the step to the
state after it, and the counter counts those that gave a value
(`Step.gave`, `drawnFrom_gave`).  It also tells how a step can end
(`Step.ending`): if the source failed that was the last draw, and the step
fails for that reason; every other failure is a refusal, after draws that
all gave a value.
-/
import Mathlib.Data.List.Induction
import DiceRoller.Proofs.Rolling.Ending
import DiceRoller.Proofs.Session.Agree

namespace DiceRoller

open Source (Counted Logged Gave)

variable {σ α : Type}

/-! ## Values given -/

def Draw.value? (draw : Draw) : Option Nat :=
  draw.answer.toOption

def given (draws : List Draw) : List Nat :=
  draws.filterMap Draw.value?

@[simp] theorem given_append (draws more : List Draw) :
    given (draws ++ more) = given draws ++ given more :=
  List.filterMap_append

@[simp] theorem given_value (max value : Nat) : given [⟨max, .ok value⟩] = [value] :=
  rfl

@[simp] theorem given_failure (max : Nat) (error : DiceError) :
    given [⟨max, .error error⟩] = [] :=
  rfl

/-! ## Draws that follow each other -/

namespace Source.Gave

variable {source : Source σ} {s u : σ} {before after : List Draw} {draw : Draw}

/-- The source was asked for every draw of the log, in a state to which
the draws before it lead. -/
theorem split (h : source.Gave s (before ++ draw :: after) u) :
    ∃ t t', source.Gave s before t ∧ source.draw draw.max t = draw.ending t' := by
  induction after using List.reverseRecOn generalizing u with
  | nil =>
      obtain ⟨t, hgave, hdraw⟩ := h.of_snoc
      exact ⟨t, u, hgave, hdraw⟩
  | append_singleton after last ih =>
      rw [← List.cons_append, ← List.append_assoc] at h
      obtain ⟨t, hgave, -⟩ := h.of_snoc
      exact ih hgave

end Source.Gave

/-! ## The log of a session -/

def Step.isAside : Step → Bool
  | aside _ => true
  | _ => false

def Source.Counted.afresh (held : Counted σ) : Counted (Logged σ) :=
  ⟨⟨held.state, []⟩, held.draws⟩

/-- What a step draws.  A step taken aside draws with a copy. -/
def Step.drawn (engine : Engine σ) : Step → Counted σ → List Draw
  | aside step, held => step.drawn engine held
  | step, held => (step.take engine.logged held.afresh).2.state.log

/-- What is drawn in a session, without the draws of copies. -/
def drawnFrom (engine : Engine σ) : List Step → Counted σ → List Draw
  | [], _ => []
  | .aside _ :: steps, held => drawnFrom engine steps held
  | step :: steps, held =>
    step.drawn engine held ++ drawnFrom engine steps (step.take engine held).2

/-! ## The log is genuine -/

/-- A logged state, and the state itself, with a genuine log since
`start`, and as many values drawn since then as there are in the log. -/
structure LoggedSince (source : Source σ) (start : Counted σ) (held : Counted (Logged σ))
    (held' : Counted σ) : Prop where
  along : source.Along start.state held.state held'.state
  alike : held.draws = held'.draws
  draws : held'.draws = start.draws + (given held.state.log).length

theorem logged_agree (engine : Engine σ) (start : Counted σ) :
    engine.logged.AgreeWithin (fun _ => True) (LoggedSince engine.source start) engine where
  secure := rfl
  limits := rfl
  draws := fun h => h.alike
  ready := by
    rintro held held' ⟨⟨hstate, _⟩, _, _⟩
    simp only [Engine.logged, Source.logged, Source.counted, Option.map_map]
    cases engine.source.ready? with
    | none => rfl
    | some ready => exact congrArg (fun s => some (ready s)) hstate
  answers := {
    before := fun _ _ _ => trivial
    answers := by
      rintro max held held' ⟨⟨hstate, hgave⟩, halike, hdraws⟩ -
      simp only [Engine.logged, Source.logged, Source.counted, EStateM.run]
      rw [hstate]
      cases hdraw : engine.source.draw max held'.state with
      | ok value s =>
          refine .ok ⟨⟨rfl, hgave.snoc hdraw⟩, congrArg (· + 1) halike, ?_⟩
          simp only [given_append, given_value, List.length_append, List.length_singleton]
          omega
      | error error s =>
          refine .error ⟨⟨rfl, hgave.snoc hdraw⟩, halike, ?_⟩
          simp only [given_append, given_failure, List.append_nil]
          exact hdraws }

theorem LoggedSince.start (source : Source σ) (held : Counted σ) :
    LoggedSince source held held.afresh held :=
  ⟨⟨rfl, .nil⟩, rfl, rfl⟩

theorem Step.logged (engine : Engine σ) (step : Step) (held : Counted σ) :
    (step.take engine.logged held.afresh).1 = (step.take engine held).1 ∧
      LoggedSince engine.source held (step.take engine.logged held.afresh).2
        (step.take engine held).2 := by
  obtain ⟨hanswer, hheld, _⟩ := step.agree (logged_agree engine held)
    (LoggedSince.start engine.source held) trivial fun _ _ => trivial
  exact ⟨hanswer, hheld⟩

theorem Step.gave (engine : Engine σ) {step : Step} (hstep : step.isAside = false)
    (held : Counted σ) :
    engine.source.Gave held.state (step.drawn engine held) (step.take engine held).2.state ∧
      (step.take engine held).2.draws =
        held.draws + (given (step.drawn engine held)).length := by
  obtain ⟨-, ⟨-, hgave⟩, -, hdraws⟩ := step.logged engine held
  cases step with
  | aside inner => exact nomatch hstep
  | _ => exact ⟨hgave, hdraws⟩

theorem Step.drawn_gave (engine : Engine σ) (step : Step) (held : Counted σ) :
    ∃ s, engine.source.Gave held.state (step.drawn engine held) s := by
  induction step with
  | aside step ih => exact ih
  | _ => exact ⟨_, (Step.gave engine rfl held).1⟩

theorem drawnFrom_cons (engine : Engine σ) {step : Step} (hstep : step.isAside = false)
    (steps : List Step) (held : Counted σ) :
    drawnFrom engine (step :: steps) held =
      step.drawn engine held ++ drawnFrom engine steps (step.take engine held).2 := by
  cases step with
  | aside inner => exact nomatch hstep
  | _ => rfl

/-- What a session draws leads to what it leaves, and is counted. -/
theorem drawnFrom_gave (engine : Engine σ) (steps : List Step) (held : Counted σ) :
    engine.source.Gave held.state (drawnFrom engine steps held)
        (afterSteps engine steps held).state ∧
      (afterSteps engine steps held).draws =
        held.draws + (given (drawnFrom engine steps held)).length := by
  induction steps generalizing held with
  | nil => exact ⟨.nil, rfl⟩
  | cons step steps ih =>
      cases hstep : step.isAside with
      | false =>
          obtain ⟨hgave, hdraws⟩ := step.gave engine hstep held
          obtain ⟨hgave', hdraws'⟩ := ih (step.take engine held).2
          rw [drawnFrom_cons engine hstep, given_append, List.length_append, ← Nat.add_assoc,
            ← hdraws]
          exact ⟨hgave.append hgave', hdraws'⟩
      | true =>
          -- what is done with a copy leaves the engine where it was
          cases step with
          | aside inner => exact ih held
          | _ => exact nomatch hstep

/-! ## The same log -/

section Alike

variable {τ : Type} {W : σ → Prop} {R : σ → τ → Prop} {engine : Engine σ} {engine' : Engine τ}

theorem logged_kept (source : Source σ) :
    source.KeptBy Logged.state (fun held max answer s => ⟨s, held.log ++ [⟨max, answer⟩]⟩)
      source.logged where
  state_keep := fun _ _ _ _ => rfl
  draw := by
    intro max held
    cases hdraw : source.draw max held.state with
    | ok value s => simp only [Source.logged, EStateM.run, hdraw]
    | error error s => simp only [Source.logged, EStateM.run, hdraw]

theorem Source.AnswerAlikeWithin.logged {source : Source σ} {source' : Source τ}
    (h : Source.AnswerAlikeWithin W R source source') :
    Source.AnswerAlikeWithin (fun held => W held.state)
      (fun held held' => R held.state held'.state ∧ held.log = held'.log)
      source.logged source'.logged := by
  refine h.kept (logged_kept source) (logged_kept source') (fun _ _ hheld => hheld.1) ?_
  rintro held held' max answer s t ⟨-, hlog⟩ hst
  exact ⟨hst, congrArg (· ++ [⟨max, answer⟩]) hlog⟩

theorem Engine.AlikeWithin.logged (h : engine.AlikeWithin W R engine') :
    engine.logged.AlikeWithin (fun held => W held.state)
      (fun held held' => R held.state held'.state ∧ held.log = held'.log) engine'.logged where
  secure := h.secure
  limits := h.limits
  ready := by
    intro held held' hheld
    simp only [Engine.logged, Source.logged, Option.map_map]
    exact h.ready hheld.1
  answers := h.answers.logged

theorem Step.drawn_alike (h : engine.AlikeWithin W R engine') {step : Step}
    (hstep : step.isAside = false) {held : Counted σ} {held' : Counted τ}
    (hheld : R held.state held'.state ∧ held.draws = held'.draws)
    (hend : W (step.take engine held).2.state) :
    step.drawn engine held = step.drawn engine' held' := by
  have hlogged := (step.logged engine held).2.along.1
  have hcopies : step.copies engine.logged held.afresh = [] := by
    cases step with
    | aside inner => exact nomatch hstep
    | _ => rfl
  have hagree :
      (step.take engine.logged held.afresh).1 = (step.take engine'.logged held'.afresh).1 ∧ _ :=
    step.agree h.logged.agree ⟨⟨hheld.1, rfl⟩, hheld.2⟩ (hlogged ▸ hend)
      fun copy hcopy => absurd (hcopies ▸ hcopy) List.not_mem_nil
  obtain ⟨-, ⟨⟨-, hlog⟩, -⟩, -⟩ := hagree
  cases step with
  | aside inner => exact nomatch hstep
  | _ => exact hlog

theorem drawnFrom_alike (h : engine.AlikeWithin W R engine') (steps : List Step)
    (held : Counted σ) (held' : Counted τ)
    (hheld : R held.state held'.state ∧ held.draws = held'.draws)
    (hwithin : ∀ reached ∈ reachedFrom engine steps held, W reached.state) :
    drawnFrom engine steps held = drawnFrom engine' steps held' := by
  induction steps generalizing held held' with
  | nil => rfl
  | cons step steps ih =>
      have hlater (reached : Counted σ)
          (hmem : reached ∈ reachedFrom engine steps (step.take engine held).2) :
          W reached.state :=
        hwithin reached (later_subset_reachedFrom engine step steps held hmem)
      have hend := hlater _ (start_mem_reachedFrom engine steps _)
      obtain ⟨-, hnext, -⟩ := step.agree h.agree hheld hend fun copy hcopy =>
        hwithin copy (copies_subset_reachedFrom engine step steps held hcopy)
      cases hstep : step.isAside with
      | false =>
          rw [drawnFrom_cons engine hstep, drawnFrom_cons engine' hstep, ih _ _ hnext hlater,
            step.drawn_alike h hstep hheld hend]
      | true =>
          cases step with
          | aside inner => exact ih held held' hnext hlater
          | _ => exact nomatch hstep

end Alike

/-! ## How a step ends -/

/-- If a roll fails then by a refusal, or because the last draw failed; all
draws before that gave a value. -/
def Broken (draws : List Draw) (error : DiceError) : Prop :=
  (error.IsRefusal ∧ Answered draws) ∨
    ∃ before max, draws = before ++ [⟨max, .error error⟩] ∧ Answered before

theorem Plan.traced (source : Source σ) (plan : Plan α) :
    Traced (plan.run source.logged) (fun draws _ => Answered draws) Broken := by
  induction plan with
  | done value => exact Traced.pure answered_nil
  | refuse error isRefusal => exact Traced.throw (.inl ⟨isRefusal, answered_nil⟩)
  | ask max next ih =>
      refine Traced.mono ((draw_traced source max).bind ih) ?_ ?_
      · rintro draws a ⟨first, value, more, rfl, rfl, hmore⟩
        exact (answered_drawsOf max [value]).append hmore
      · rintro draws error (rfl | ⟨first, value, more, rfl, rfl, hmore⟩)
        · exact .inr ⟨[], max, rfl, answered_nil⟩
        · have hfirst := answered_drawsOf max [value]
          rcases hmore with ⟨hrefusal, hmore⟩ | ⟨before, max', rfl, hbefore⟩
          · exact .inl ⟨hrefusal, hfirst.append hmore⟩
          · exact .inr ⟨_, max', (List.append_assoc _ before _).symm, hfirst.append hbefore⟩

theorem counted_answerAlike (source : Source σ) :
    Source.AnswerAlike (fun (held : Counted σ) s => held.state = s) source.counted source := by
  rintro max held s rfl
  simp only [Source.counted, EStateM.run]
  cases source.draw max held.state with
  | ok value s => exact .ok rfl
  | error error s => exact .error rfl

/-- How a step ends: with an answer, all draws having given a value, or as
one of its draws did. -/
def Step.Ending (answer : Answer) (draws : List Draw) : Prop :=
  match answer.error? with
  | none => Answered draws
  | some error => Broken draws error

theorem Step.ending_of_planned (engine : Engine σ) {step : Step} (hstep : step.IsPlanned)
    (held : Counted σ) :
    Ending (step.take engine.logged held.afresh).1
      (step.take engine.logged held.afresh).2.state.log := by
  obtain ⟨α, plan, wrap, hwrap, hplan⟩ := hstep engine.logged.source.secure engine.logged.limits
  have htraced := plan.traced engine.source ⟨held.state, []⟩
  have hsame := plan.alike (counted_answerAlike engine.source.logged)
    held.afresh ⟨held.state, []⟩ rfl
  rw [hplan _ engine.logged rfl rfl, answerOf, Ending]
  generalize (plan.run engine.source.logged).run ⟨held.state, []⟩ = plain at hsame htraced
  have hsource : engine.logged.source.counted = engine.source.logged.counted := rfl
  rw [hsource]
  generalize (plan.run engine.source.logged.counted).run _ = counted at hsame
  cases hsame with
  | ok hstate =>
      obtain ⟨draws, hlog, hdone⟩ := htraced
      dsimp only
      rw [hwrap, hstate, hlog]
      exact hdone
  | error hstate =>
      obtain ⟨draws, hlog, hbroken⟩ := htraced
      dsimp only [Answer.error?]
      rw [hstate, hlog]
      exact hbroken

/-- A step ends as its draws did. -/
theorem Step.ending (engine : Engine σ) (step : Step) (held : Counted σ) :
    Ending (step.take engine held).1 (step.drawn engine held) := by
  induction step with
  | aside step ih => exact ih
  | ready => exact answered_nil
  | _ =>
      rw [← (Step.logged engine _ held).1]
      exact Step.ending_of_planned engine (Step.planned rfl) held

end DiceRoller
