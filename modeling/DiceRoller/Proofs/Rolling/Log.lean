/-
# A log of all draws

What a roll draws cannot be read off the state it leaves: a source may
answer without changing its state.  `Source.logged` is the same source
with a log, in which every request is written down with its answer, the
failures too.  Rolling with it ends as rolling without it
(`run_logged_of_ok`, `run_logged_of_error`), and the log is genuine: it
lists what the source itself answers, one request after the other, on the
way from the first state to the last (`Source.Gave`).

`Rolling.drawn` is the log of a roll from its beginning.
-/
import DiceRoller.Proofs.Rolling.Alike

namespace DiceRoller

variable {σ α : Type}

/-- A request to a source for a number up to `max`, and how it was
answered. -/
structure Draw where
  max : Nat
  answer : Except DiceError Nat

/-- How a source ends that gives this answer and is left in a state. -/
def Draw.ending (draw : Draw) (s : σ) : EStateM.Result DiceError σ Nat :=
  match draw.answer with
  | .ok value => .ok value s
  | .error error => .error error s

/-- A state with all draws on the way to it. -/
structure Source.Logged (σ : Type) where
  state : σ
  log : List Draw

/-- The same source, writing down every draw. -/
def Source.logged (source : Source σ) : Source (Logged σ) where
  draw max := fun held =>
    match source.draw max held.state with
    | .ok value state => .ok value ⟨state, held.log ++ [⟨max, .ok value⟩]⟩
    | .error error state => .error error ⟨state, held.log ++ [⟨max, .error error⟩]⟩
  secure := source.secure
  ready? := source.ready?.map fun ready held => ready held.state

def Engine.logged (engine : Engine σ) : Engine (Source.Logged σ) where
  source := engine.source.logged
  limits := engine.limits

/-- All draws of a roll from a state. -/
def Rolling.drawn (roll : Rolling (Source.Logged σ) α) (state : σ) : List Draw :=
  match roll.run ⟨state, []⟩ with
  | .ok _ held => held.log
  | .error _ held => held.log

/-! ## The log is genuine -/

/-- The draws are what the source answers, one after the other, on the way
from the first state to the second. -/
inductive Source.Gave (source : Source σ) : σ → List Draw → σ → Prop
  | nil {s : σ} : Gave source s [] s
  | snoc {s s' s'' : σ} {draws : List Draw} {draw : Draw} :
      Gave source s draws s' → source.draw draw.max s' = draw.ending s'' →
        Gave source s (draws ++ [draw]) s''

theorem Source.Gave.of_mem {source : Source σ} {s s' : σ} {draws : List Draw} {draw : Draw}
    (h : source.Gave s draws s') (hmem : draw ∈ draws) :
    ∃ t t', source.draw draw.max t = draw.ending t' := by
  induction h with
  | nil => exact absurd hmem List.not_mem_nil
  | snoc hgave hdraw ih =>
      rcases List.mem_append.mp hmem with hmem | hmem
      · exact ih hmem
      · rw [List.mem_singleton.mp hmem]
        exact ⟨_, _, hdraw⟩

theorem Source.Gave.of_snoc {source : Source σ} {s s' : σ} {draws : List Draw} {draw : Draw}
    (h : source.Gave s (draws ++ [draw]) s') :
    ∃ t, source.Gave s draws t ∧ source.draw draw.max t = draw.ending s' := by
  generalize hall : draws ++ [draw] = all at h
  cases h with
  | nil => exact absurd hall (by simp)
  | snoc hgave hdraw =>
      obtain ⟨rfl, hlast⟩ := List.append_inj' hall rfl
      cases hlast
      exact ⟨_, hgave, hdraw⟩

theorem Source.Gave.append {source : Source σ} {s t u : σ} {draws more : List Draw}
    (h : source.Gave s draws t) (hmore : source.Gave t more u) :
    source.Gave s (draws ++ more) u := by
  induction hmore with
  | nil => rw [List.append_nil]; exact h
  | snoc hgave hdraw ih =>
      rw [← List.append_assoc]
      exact ih.snoc hdraw

/-- A logged state and the state itself, with a genuine log since `start`. -/
def Source.Along (source : Source σ) (start : σ) (held : Logged σ) (s : σ) : Prop :=
  held.state = s ∧ source.Gave start held.log s

theorem logged_answerAlike (source : Source σ) (start : σ) :
    Source.AnswerAlike (source.Along start) source.logged source := by
  rintro max held s ⟨rfl, hgave⟩
  simp only [Source.logged, EStateM.run]
  cases hdraw : source.draw max held.state with
  | ok value state => exact .ok ⟨rfl, hgave.snoc hdraw⟩
  | error error state => exact .error ⟨rfl, hgave.snoc hdraw⟩

section Runs

variable {source : Source σ} {roll : Rolling (Source.Logged σ) α} {plain : Rolling σ α}
  {s s' : σ}

/-- With a log a roll gives the same value. -/
theorem run_logged_of_ok {a : α} (h : Alike (source.Along s) roll plain)
    (hrun : plain.run s = .ok a s') :
    roll.run ⟨s, []⟩ = .ok a ⟨s', roll.drawn s⟩ ∧ source.Gave s (roll.drawn s) s' := by
  have hend := h ⟨s, []⟩ s ⟨rfl, .nil⟩
  rw [hrun] at hend
  rw [Rolling.drawn]
  generalize roll.run ⟨s, []⟩ = ending at hend
  cases hend with
  | ok halong => obtain ⟨rfl, hgave⟩ := halong; exact ⟨rfl, hgave⟩

theorem run_logged_of_error {e : DiceError} (h : Alike (source.Along s) roll plain)
    (hrun : plain.run s = .error e s') :
    roll.run ⟨s, []⟩ = .error e ⟨s', roll.drawn s⟩ ∧ source.Gave s (roll.drawn s) s' := by
  have hend := h ⟨s, []⟩ s ⟨rfl, .nil⟩
  rw [hrun] at hend
  rw [Rolling.drawn]
  generalize roll.run ⟨s, []⟩ = ending at hend
  cases hend with
  | error halong => obtain ⟨rfl, hgave⟩ := halong; exact ⟨rfl, hgave⟩

end Runs

theorem rollSpec_logged (engine : Engine σ) (spec : Spec) (type : RollType) (bias : Bias)
    (start : σ) :
    Alike (engine.source.Along start) (engine.logged.rollSpec spec type bias)
      (engine.rollSpec spec type bias) := by
  have h : Source.AnswerAlike (engine.source.Along start) engine.logged.source
      engine.source := logged_answerAlike engine.source start
  exact rollSpec_alike h rfl spec type bias

end DiceRoller
