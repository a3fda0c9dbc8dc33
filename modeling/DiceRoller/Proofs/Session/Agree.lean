/-
# Sessions that agree

A step of a session does one of three things: it asks the source, by a
plan, and answers with what comes of it; it asks whether there is another
value; or it does something with a copy.  So two engines whose sources
answer alike agree on every step, and then on every session, copies
included.

As with single rolls, the second source may keep up with the first one
only as long as that one stays within `W`.  Then it has to be known of a
session where it leaves the engine, and where it leaves the copies:
`reachedFrom` lists all of these states.

| | |
| :-- | :-- |
| `Step.planned` | what a step asks for, when it asks at all |
| `Step.agree` | one step, by induction on the steps taken aside |
| `sessions_agree` | a session: the same answers and counters, related states all the way |
| `AlikeWithin.agree` | engines agree if their sources answer alike |
-/
import Mathlib.Data.List.Forall2
import DiceRoller.Proofs.Rolling.Alike
import DiceRoller.Session

namespace DiceRoller

open Source (Counted)

variable {σ τ α : Type}

/-! ## Where a session leads -/

def afterSteps (engine : Engine σ) : List Step → Counted σ → Counted σ
  | [], held => held
  | step :: steps, held => afterSteps engine steps (step.take engine held).2

/-- What the copies of the engine are left with by a step. -/
def Step.copies (engine : Engine σ) : Step → Counted σ → List (Counted σ)
  | aside step, held => step.copies engine held ++ [(step.take engine held).2]
  | _, _ => []

/-- What the engine holds, before the first step and after each one, and
what its copies are left with. -/
def reachedFrom (engine : Engine σ) : List Step → Counted σ → List (Counted σ)
  | [], held => [held]
  | step :: steps, held =>
    held :: (step.copies engine held ++ reachedFrom engine steps (step.take engine held).2)

theorem sessionFrom_append (engine : Engine σ) (steps more : List Step) (held : Counted σ) :
    sessionFrom engine (steps ++ more) held =
      sessionFrom engine steps held ++ sessionFrom engine more (afterSteps engine steps held) := by
  induction steps generalizing held with
  | nil => rfl
  | cons step steps ih =>
      simp only [List.cons_append, sessionFrom, afterSteps]
      rw [ih]

@[simp] theorem length_sessionFrom (engine : Engine σ) (steps : List Step) (held : Counted σ) :
    (sessionFrom engine steps held).length = steps.length := by
  induction steps generalizing held with
  | nil => rfl
  | cons step steps ih => exact congrArg (· + 1) (ih _)

/-- A step that leaves the engine as it was can be left out: this takes
away its answer and no other. -/
theorem sessionFrom_eraseIdx (engine : Engine σ) {steps : List Step} {step : Step}
    {held : Counted σ}
    (hstep : ∀ held, (step.take engine held).2 = held) (later : List Step) :
    (sessionFrom engine (steps ++ step :: later) held).eraseIdx steps.length =
      sessionFrom engine (steps ++ later) held := by
  have hlength := length_sessionFrom engine steps held
  rw [sessionFrom_append, sessionFrom_append,
    List.eraseIdx_append_of_length_le (Nat.le_of_eq hlength), hlength, Nat.sub_self]
  simp only [sessionFrom, List.eraseIdx_cons_zero, hstep]

theorem copies_subset_reachedFrom (engine : Engine σ) (step : Step) (steps : List Step)
    (held : Counted σ) : step.copies engine held ⊆ reachedFrom engine (step :: steps) held :=
  fun _ hmem => List.mem_cons_of_mem _ (List.mem_append_left _ hmem)

theorem later_subset_reachedFrom (engine : Engine σ) (step : Step) (steps : List Step)
    (held : Counted σ) :
    reachedFrom engine steps (step.take engine held).2 ⊆
      reachedFrom engine (step :: steps) held :=
  fun _ hmem => List.mem_cons_of_mem _ (List.mem_append_right _ hmem)

theorem start_mem_reachedFrom (engine : Engine σ) (steps : List Step) (held : Counted σ) :
    held ∈ reachedFrom engine steps held := by
  cases steps with
  | nil => exact List.mem_singleton_self held
  | cons step steps => exact List.mem_cons_self

theorem afterSteps_mem_reachedFrom (engine : Engine σ) (steps : List Step)
    (held : Counted σ) : afterSteps engine steps held ∈ reachedFrom engine steps held := by
  induction steps generalizing held with
  | nil => exact List.mem_singleton_self held
  | cons step steps ih =>
      exact later_subset_reachedFrom engine step steps held (ih _)

theorem Step.take_draw_of_ok {engine : Engine σ} {max value : Nat} {held : Counted σ} {s : σ}
    (h : engine.source.draw max held.state = .ok value s) :
    (draw max).take engine held = (.value value, ⟨s, held.draws + 1⟩) := by
  simp only [take, answerOf, Source.counted, EStateM.run, h]

theorem Step.take_draw_of_error {engine : Engine σ} {max : Nat} {error : DiceError}
    {held : Counted σ} {s : σ} (h : engine.source.draw max held.state = .error error s) :
    (draw max).take engine held = (.failed (.dice error), ⟨s, held.draws⟩) := by
  simp only [take, answerOf, Source.counted, EStateM.run, h]

/-! ## What a step asks for -/

/-- The reason why dice could not be rolled, if that is what came of a
step, or of the step taken aside. -/
def Answer.error? : Answer → Option DiceError
  | failed (.dice error) => some error
  | aside answer _ => answer.error?
  | _ => none

namespace Step

/-- The step turns to the source for values, or to nothing but the engine
itself. -/
def asks : Step → Bool
  | ready | aside _ => false
  | _ => true

/-- A plan tells what the step asks for, and its value what the step
answers.  There is one for each kind of engine: a secure one or another,
with these limits or with others. -/
def IsPlanned (step : Step) : Prop :=
  ∀ (secure : Bool) (limits : Limits), ∃ (α : Type) (plan : Plan α) (wrap : α → Answer),
    (∀ a, (wrap a).error? = none) ∧
    ∀ (σ : Type) (engine : Engine σ), engine.source.secure = secure → engine.limits = limits →
      ∀ held : Counted σ,
        step.take engine held = answerOf wrap .dice (plan.run engine.source.counted) held

theorem isPlanned_of_planned {step : Step} {roll : (σ : Type) → Source σ → Rolling σ α}
    (h : Planned roll) (wrap : α → Answer) (hwrap : ∀ a, (wrap a).error? = none)
    (htake : ∀ (σ : Type) (engine : Engine σ) (held : Counted σ),
      step.take engine held = answerOf wrap .dice (roll _ engine.source.counted) held) :
    step.IsPlanned := by
  obtain ⟨plan, hplan⟩ := h
  intro secure limits
  refine ⟨α, plan, wrap, hwrap, fun σ engine _ _ held => ?_⟩
  rw [htake, hplan]

theorem rollSpec_isPlanned (spec : Spec) (type : RollType) (bias : Bias) :
    (rollSpec spec type bias).IsPlanned := by
  intro secure limits
  obtain ⟨plan, hplan⟩ := rollSpec_planned secure spec type bias
  refine ⟨Outcome, plan, .outcome, fun _ => rfl, fun σ engine hsecure _ held => ?_⟩
  rw [take, hplan _ engine.counted hsecure]
  rfl

theorem roll_isPlanned (text : String) (type : RollType) (bias : Bias) :
    (roll text type bias).IsPlanned := by
  intro secure limits
  cases hparse : parse limits text with
  | error cause =>
      refine ⟨Unit, .done (), fun _ => .failed (.invalidFormat cause), fun _ => rfl,
        fun σ engine _ hlimits held => ?_⟩
      have hread : parse engine.counted.limits text = .error cause := hlimits ▸ hparse
      rw [take, Engine.roll, hread]
      rfl
  | ok spec =>
      obtain ⟨α, plan, wrap, hwrap, hplan⟩ := rollSpec_isPlanned spec type bias secure limits
      refine ⟨α, plan, wrap, hwrap, fun σ engine hsecure hlimits held => ?_⟩
      have hread : parse engine.counted.limits text = .ok spec := hlimits ▸ hparse
      rw [← hplan σ engine hsecure hlimits held, take, Engine.roll, hread, take, answerOf, answerOf]
      simp only [EStateM.run, EStateM.adaptExcept]
      cases (engine.counted.rollSpec spec type bias) held with
      | ok outcome held' => rfl
      | error error held' => rfl

theorem planned {step : Step} (h : step.asks = true) : step.IsPlanned := by
  cases step with
  | roll text type bias => exact roll_isPlanned text type bias
  | rollSpec spec type bias => exact rollSpec_isPlanned spec type bias
  | draw max => exact isPlanned_of_planned (.draw max) .value (fun _ => rfl) fun _ _ _ => rfl
  | rollDie sides bias =>
      exact isPlanned_of_planned (rollDie_planned sides bias) .value (fun _ => rfl)
        fun _ _ _ => rfl
  | rollMany count sides bias =>
      exact isPlanned_of_planned (rollMany_planned count sides bias) .values (fun _ => rfl)
        fun _ _ _ => rfl
  | rollDice dice bias =>
      exact isPlanned_of_planned (rollDice_planned dice bias) .rolled (fun _ => rfl)
        fun _ _ _ => rfl
  | settle bias first sides =>
      exact isPlanned_of_planned (settle_planned bias first sides) .value (fun _ => rfl)
        fun _ _ _ => rfl
  | sample sides rolls =>
      exact isPlanned_of_planned (sample_planned sides rolls) .sample (fun _ => rfl)
        fun _ _ _ => rfl
  | security =>
      intro secure limits
      refine ⟨Unit, .done (), fun _ => .security secure (Engine.ofSecurity secure).securityStatus,
        fun _ => rfl, fun σ engine hsecure _ held => ?_⟩
      subst hsecure
      rfl
  | limits =>
      intro secure limits
      refine ⟨Unit, .done (), fun _ => .limits limits, fun _ => rfl,
        fun σ engine _ hlimits held => ?_⟩
      subst hlimits
      rfl
  | ready => exact nomatch h
  | aside step => exact nomatch h

end Step

/-! ## Engines that agree -/

/-- The first engine and the second one are told apart by nothing that a
session asks for, as long as the first one stays within `W`. -/
structure Engine.AgreeWithin (W : Counted σ → Prop) (R : Counted σ → Counted τ → Prop)
    (engine : Engine σ) (engine' : Engine τ) : Prop where
  secure : engine.source.secure = engine'.source.secure
  limits : engine.limits = engine'.limits
  draws : ∀ {held held'}, R held held' → held.draws = held'.draws
  ready : ∀ {held held'}, R held held' →
    engine.source.counted.ready?.map (· held) = engine'.source.counted.ready?.map (· held')
  answers : Source.AnswerAlikeWithin W R engine.source.counted engine'.source.counted

section Agree

variable {W : Counted σ → Prop} {R : Counted σ → Counted τ → Prop} {engine : Engine σ}
  {engine' : Engine τ}

theorem Step.agree_of_planned (h : engine.AgreeWithin W R engine') {step : Step}
    (hstep : step.IsPlanned) {held : Counted σ} {held' : Counted τ} (hheld : R held held')
    (hend : W (step.take engine held).2) :
    (step.take engine held).1 = (step.take engine' held').1 ∧
      R (step.take engine held).2 (step.take engine' held').2 := by
  obtain ⟨α, plan, wrap, _, hplan⟩ := hstep engine.source.secure engine.limits
  have htake := hplan σ engine rfl rfl held
  have htake' := hplan τ engine' h.secure.symm h.limits.symm held'
  rw [htake] at hend
  rw [htake, htake', answerOf, answerOf]
  rw [answerOf] at hend
  have hsame := plan.sameEnd h.answers hheld
  generalize (plan.run engine'.source.counted).run held' = ending' at hsame
  cases hrun : (plan.run engine.source.counted).run held with
  | ok a s =>
      rw [hrun] at hend hsame
      cases hsame hend with
      | ok hst => exact ⟨rfl, hst⟩
  | error error s =>
      rw [hrun] at hend hsame
      cases hsame hend with
      | error hst => exact ⟨rfl, hst⟩

/-- A step is answered alike, and leaves the engines and their copies in
related states. -/
theorem Step.agree (h : engine.AgreeWithin W R engine') (step : Step) {held : Counted σ}
    {held' : Counted τ} (hheld : R held held') (hend : W (step.take engine held).2)
    (hcopies : ∀ copy ∈ step.copies engine held, W copy) :
    (step.take engine held).1 = (step.take engine' held').1 ∧
      R (step.take engine held).2 (step.take engine' held').2 ∧
      List.Forall₂ R (step.copies engine held) (step.copies engine' held') := by
  induction step with
  | aside step ih =>
      obtain ⟨hanswer, hcopy, hcopies'⟩ :=
        ih (hcopies _ (List.mem_append_right _ (List.mem_singleton_self _)))
          fun copy hcopy => hcopies copy (List.mem_append_left _ hcopy)
      refine ⟨?_, hheld, List.rel_append hcopies' (.cons hcopy .nil)⟩
      simp only [Step.take]
      rw [hanswer, h.draws hcopy]
  | ready =>
      simp only [Step.take]
      exact ⟨congrArg Answer.ready (h.ready hheld), hheld, .nil⟩
  | _ =>
      obtain ⟨hanswer, hst⟩ := Step.agree_of_planned h (Step.planned rfl) hheld hend
      exact ⟨hanswer, hst, .nil⟩

/-- A session that leaves the first engine and its copies within `W` has
the same answers with both engines, and leads through related states. -/
theorem sessions_agree (h : engine.AgreeWithin W R engine') (steps : List Step)
    (held : Counted σ) (held' : Counted τ) (hheld : R held held')
    (hwithin : ∀ reached ∈ reachedFrom engine steps held, W reached) :
    sessionFrom engine steps held = sessionFrom engine' steps held' ∧
      List.Forall₂ R (reachedFrom engine steps held) (reachedFrom engine' steps held') ∧
      R (afterSteps engine steps held) (afterSteps engine' steps held') := by
  induction steps generalizing held held' with
  | nil => exact ⟨rfl, .cons hheld .nil, hheld⟩
  | cons step steps ih =>
      have hlater : ∀ reached ∈ reachedFrom engine steps (step.take engine held).2, W reached :=
        fun reached hmem =>
          hwithin reached (later_subset_reachedFrom engine step steps held hmem)
      obtain ⟨hanswer, hnext, hcopies⟩ := step.agree h hheld
        (hlater _ (start_mem_reachedFrom engine steps _))
        fun copy hcopy => hwithin copy (copies_subset_reachedFrom engine step steps held hcopy)
      obtain ⟨hanswers, hreached, hafter⟩ := ih _ _ hnext hlater
      refine ⟨?_, .cons hheld (List.rel_append hcopies hreached), hafter⟩
      simp only [sessionFrom]
      rw [hanswer, h.draws hnext, hanswers]

end Agree

/-! ## Engines with sources that answer alike -/

/-- One more value, if there was one. -/
def Source.Counted.count (held : Counted σ) (answer : Except DiceError Nat) (s : σ) : Counted σ :=
  match answer with
  | .ok _ => ⟨s, held.draws + 1⟩
  | .error _ => ⟨s, held.draws⟩

theorem counted_kept (source : Source σ) :
    source.KeptBy Counted.state (fun held _ answer s => held.count answer s) source.counted where
  state_keep := by
    intro held max answer s
    cases answer <;> rfl
  draw := by
    intro max held
    cases hdraw : source.draw max held.state with
    | ok value s => simp only [Source.counted, EStateM.run, hdraw, Counted.count]
    | error error s => simp only [Source.counted, EStateM.run, hdraw, Counted.count]

theorem Source.AnswerAlikeWithin.counted {W : σ → Prop} {R : σ → τ → Prop} {source : Source σ}
    {source' : Source τ} (h : Source.AnswerAlikeWithin W R source source') :
    Source.AnswerAlikeWithin (fun held => W held.state)
      (fun held held' => R held.state held'.state ∧ held.draws = held'.draws)
      source.counted source'.counted := by
  refine h.kept (counted_kept source) (counted_kept source') (fun _ _ hheld => hheld.1) ?_
  rintro held held' max answer s t ⟨-, hdraws⟩ hst
  cases answer with
  | ok value => exact ⟨hst, congrArg (· + 1) hdraws⟩
  | error error => exact ⟨hst, hdraws⟩

/-- Nothing tells the two engines apart, with `R` between the states of
their sources, as long as the first source stays within `W`. -/
structure Engine.AlikeWithin (W : σ → Prop) (R : σ → τ → Prop) (engine : Engine σ)
    (engine' : Engine τ) : Prop where
  secure : engine.source.secure = engine'.source.secure
  limits : engine.limits = engine'.limits
  ready : ∀ {s t}, R s t → engine.source.ready?.map (· s) = engine'.source.ready?.map (· t)
  answers : Source.AnswerAlikeWithin W R engine.source engine'.source

theorem Engine.AlikeWithin.agree {W : σ → Prop} {R : σ → τ → Prop} {engine : Engine σ}
    {engine' : Engine τ} (h : engine.AlikeWithin W R engine') :
    engine.AgreeWithin (fun held => W held.state)
      (fun held held' => R held.state held'.state ∧ held.draws = held'.draws) engine' where
  secure := h.secure
  limits := h.limits
  draws := fun hheld => hheld.2
  ready := by
    intro held held' hheld
    simp only [Source.counted, Option.map_map]
    exact h.ready hheld.1
  answers := h.answers.counted

end DiceRoller
