/-
# Sources that answer alike

Rolling asks a source for values and looks at nothing else, least of all
at its state.  So if two sources answer every request alike and keep their
states in some relation, whatever is rolled with them ends alike, in
related states, down to the error and the point where it comes up.

`Alike R roll roll'` says that of two computations.  A source may also
follow another one only so far, as a list of bytes follows a generator
until it runs out.  `Source.AnswerAlikeWithin W R` says that it does so
while the other stays within `W`; a roll that ends within `W` was there
all along, so nothing more has to be known of it than where it ends
(`Plan.sameEnd`).  Both are one induction over what is asked for.

Sources that keep something beside their state, such as a count or a log
of what was drawn, answer alike if the sources themselves do
(`AnswerAlikeWithin.kept`).
-/
import DiceRoller.Proofs.Rolling.Plan

namespace DiceRoller

variable {ε σ τ α : Type}

/-! ## Endings -/

/-- The same value or the same error, in related states. -/
inductive SameEnd (R : σ → τ → Prop) :
    EStateM.Result ε σ α → EStateM.Result ε τ α → Prop
  | ok {a : α} {s : σ} {t : τ} : R s t → SameEnd R (.ok a s) (.ok a t)
  | error {e : ε} {s : σ} {t : τ} : R s t → SameEnd R (.error e s) (.error e t)

/-- From related states the two computations end alike. -/
def Alike (R : σ → τ → Prop) (roll : EStateM ε σ α) (roll' : EStateM ε τ α) : Prop :=
  ∀ s t, R s t → SameEnd R (roll.run s) (roll'.run t)

def endState : EStateM.Result ε σ α → σ
  | .ok _ s => s
  | .error _ s => s

/-! ## Sources -/

/-- The two sources answer every request alike. -/
def Source.AnswerAlike (R : σ → τ → Prop) (source : Source σ) (source' : Source τ) : Prop :=
  ∀ max, Alike R (source.draw max) (source'.draw max)

/-- The two sources answer alike every request that leaves the first one
within `W`. -/
structure Source.AnswerAlikeWithin (W : σ → Prop) (R : σ → τ → Prop) (source : Source σ)
    (source' : Source τ) : Prop where
  before : ∀ max s, W (endState ((source.draw max).run s)) → W s
  answers : ∀ max s t, R s t → W (endState ((source.draw max).run s)) →
    SameEnd R ((source.draw max).run s) ((source'.draw max).run t)

theorem Source.AnswerAlike.within {R : σ → τ → Prop} {source : Source σ} {source' : Source τ}
    (h : Source.AnswerAlike R source source') :
    Source.AnswerAlikeWithin (fun _ => True) R source source' where
  before := fun _ _ _ => trivial
  answers := fun max s t hst _ => h max s t hst

/-! ## Sources that keep something beside their state -/

/-- A source `keeping` answers as `source` does, and keeps something beside
its state, which only depends on what it is asked and answers. -/
structure Source.KeptBy {κ : Type} (source : Source σ) (state : κ → σ)
    (keep : κ → Nat → Except DiceError Nat → σ → κ) (keeping : Source κ) : Prop where
  state_keep : ∀ held max answer s, state (keep held max answer s) = s
  draw : ∀ max held, (keeping.draw max).run held =
    match (source.draw max).run (state held) with
    | .ok value s => .ok value (keep held max (.ok value) s)
    | .error error s => .error error (keep held max (.error error) s)

/-- Sources that answer alike do so with something kept beside their
states, if they keep it alike. -/
theorem Source.AnswerAlikeWithin.kept {κ κ' : Type} {W : σ → Prop} {R : σ → τ → Prop}
    {source : Source σ} {source' : Source τ} {keeping : Source κ} {keeping' : Source κ'}
    {state : κ → σ} {state' : κ' → τ} {keep : κ → Nat → Except DiceError Nat → σ → κ}
    {keep' : κ' → Nat → Except DiceError Nat → τ → κ'}
    (h : Source.AnswerAlikeWithin W R source source') (hkeep : source.KeptBy state keep keeping)
    (hkeep' : source'.KeptBy state' keep' keeping') {R' : κ → κ' → Prop}
    (hstate : ∀ held held', R' held held' → R (state held) (state' held'))
    (hnext : ∀ held held' max answer s t, R' held held' → R s t →
      R' (keep held max answer s) (keep' held' max answer t)) :
    Source.AnswerAlikeWithin (fun held => W (state held)) R' keeping keeping' where
  before := by
    intro max held hend
    apply h.before max (state held)
    rw [hkeep.draw] at hend
    generalize (source.draw max).run (state held) = ending at hend ⊢
    cases ending with
    | ok value s => rw [endState, hkeep.state_keep] at hend; exact hend
    | error error s => rw [endState, hkeep.state_keep] at hend; exact hend
  answers := by
    intro max held held' hheld hend
    have hsame := h.answers max (state held) (state' held') (hstate held held' hheld)
    rw [hkeep.draw] at hend ⊢
    rw [hkeep'.draw]
    generalize (source.draw max).run (state held) = ending at hend hsame ⊢
    generalize (source'.draw max).run (state' held') = ending' at hsame
    cases ending with
    | ok value s =>
        rw [endState, hkeep.state_keep] at hend
        cases hsame hend with
        | ok hst => exact .ok (hnext held held' max (.ok value) s _ hheld hst)
    | error error s =>
        rw [endState, hkeep.state_keep] at hend
        cases hsame hend with
        | error hst => exact .error (hnext held held' max (.error error) s _ hheld hst)

/-! ## Plans -/

namespace Plan

variable {W : σ → Prop} {R : σ → τ → Prop} {source : Source σ} {source' : Source τ}

theorem before (h : Source.AnswerAlikeWithin W R source source') (plan : Plan α) {s : σ}
    (hend : W (endState ((plan.run source).run s))) : W s := by
  induction plan generalizing s with
  | done value => exact hend
  | refuse error isRefusal => exact hend
  | ask max next ih =>
      apply h.before max s
      rw [run, EStateM.run_bind] at hend
      cases hdraw : (source.draw max).run s with
      | ok value s' => rw [hdraw] at hend; exact ih value hend
      | error error s' => rw [hdraw] at hend; exact hend

/-- A plan that ends within `W` ends alike with both sources. -/
theorem sameEnd (h : Source.AnswerAlikeWithin W R source source') (plan : Plan α) {s : σ}
    {t : τ} (hst : R s t) (hend : W (endState ((plan.run source).run s))) :
    SameEnd R ((plan.run source).run s) ((plan.run source').run t) := by
  induction plan generalizing s t with
  | done value => exact .ok hst
  | refuse error isRefusal => exact .error hst
  | ask max next ih =>
      rw [run, EStateM.run_bind] at hend
      rw [run, run, EStateM.run_bind, EStateM.run_bind]
      have hdraw := h.answers max s t hst
      -- the state after this request is within `W`, since the rest ends there
      cases hend' : (source.draw max).run s with
      | ok value s' =>
          rw [hend'] at hend hdraw
          have hwithin := before h (next value) hend
          generalize (source'.draw max).run t = other at hdraw
          cases hdraw hwithin with
          | ok hst' => exact ih value hst' hend
      | error error s' =>
          rw [hend'] at hend hdraw
          generalize (source'.draw max).run t = other at hdraw
          cases hdraw hend with
          | error hst' => exact .error hst'

theorem alike (h : Source.AnswerAlike R source source') (plan : Plan α) :
    Alike R (plan.run source) (plan.run source') :=
  fun _ _ hst => sameEnd h.within plan hst trivial

end Plan

theorem Planned.alike {roll : (σ : Type) → Source σ → Rolling σ α} (hroll : Planned roll)
    {R : σ → τ → Prop} {source : Source σ} {source' : Source τ}
    (h : Source.AnswerAlike R source source') : Alike R (roll σ source) (roll τ source') := by
  obtain ⟨plan, hplan⟩ := hroll
  rw [hplan, hplan]
  exact plan.alike h

/-! ## Operations -/

theorem rollShape_alike {R : σ → τ → Prop} {source : Source σ} {source' : Source τ}
    (h : Source.AnswerAlike R source source') (type : RollType) (bias : Bias) (shape : Shape) :
    Alike R (source.rollShape type bias shape) (source'.rollShape type bias shape) :=
  (rollShape_planned type bias shape).alike h

/-- Engines roll a spec alike if their sources answer alike and are equally
secure; their limits do not matter. -/
theorem rollSpec_alike {R : σ → τ → Prop} {engine : Engine σ} {engine' : Engine τ}
    (h : Source.AnswerAlike R engine.source engine'.source)
    (hsecure : engine.source.secure = engine'.source.secure)
    (spec : Spec) (type : RollType) (bias : Bias) :
    Alike R (engine.rollSpec spec type bias) (engine'.rollSpec spec type bias) := by
  obtain ⟨plan, hplan⟩ := rollSpec_planned engine.source.secure spec type bias
  rw [hplan σ engine rfl, hplan τ engine' hsecure.symm]
  exact plan.alike h

end DiceRoller
