/-
# Looking one value ahead

`Source.listed` is asked whether there is another value and looks into its
list, which stays as it is.  An iterator cannot do so: to know whether
there is another value it has to produce it, and then has to hold it back
until it is asked for.  `Lookahead` is such an iterator, and a session
with it (`peekingSessionFrom`) changes its state with every look.

The values held back and those still to be produced are together the list
(`Lookahead.values`), and neither looking ahead nor taking a value sees
anything else of them.  So the session is the one on the list, answer by
answer (`peekingSessionFrom_eq`).
-/
import DiceRoller.Proofs.Session.Agree

namespace DiceRoller

open Source (Counted)

/-- An iterator over a list that can look one value ahead.  If it did, `seen`
is what it found: the next value, or that there is none. -/
structure Lookahead where
  seen : Option (Option Nat)
  rest : List Nat
  ended : seen = some none → rest = []

namespace Lookahead

def ofList (values : List Nat) : Lookahead :=
  ⟨none, values, fun h => nomatch h⟩

def values (it : Lookahead) : List Nat :=
  match it.seen with
  | none => it.rest
  | some none => []
  | some (some value) => value :: it.rest

def peek (it : Lookahead) : Option Nat × Lookahead :=
  match it.seen with
  | some found => (found, it)
  | none =>
    (it.rest.head?, ⟨some it.rest.head?, it.rest.tail, fun h =>
      congrArg List.tail (List.head?_eq_none_iff.mp (Option.some.inj h))⟩)

def next (it : Lookahead) : Option Nat × Lookahead :=
  match it.seen with
  | some found => (found, ofList it.rest)
  | none => (it.rest.head?, ofList it.rest.tail)

theorem peek_fst (it : Lookahead) : it.peek.1 = it.values.head? := by
  obtain ⟨seen, rest, ended⟩ := it
  cases seen with
  | none => rfl
  | some found =>
      cases found with
      | none => rfl
      | some value => rfl

@[simp] theorem values_peek (it : Lookahead) : it.peek.2.values = it.values := by
  obtain ⟨seen, rest, ended⟩ := it
  cases seen with
  | some found => rfl
  | none =>
      cases rest with
      | nil => rfl
      | cons value rest => rfl

theorem next_fst (it : Lookahead) : it.next.1 = it.peek.1 := by
  unfold next peek
  cases it.seen with
  | none => rfl
  | some found => rfl

theorem values_next (it : Lookahead) : it.next.2.values = it.values.tail := by
  obtain ⟨seen, rest, ended⟩ := it
  cases seen with
  | none => rfl
  | some found =>
      cases found with
      | some value => rfl
      | none => exact ended rfl

end Lookahead

def Source.lookahead : Source Lookahead where
  draw _ := fun it =>
    match it.next with
    | (some value, it) => .ok value it
    | (none, it) => .error .exhausted it
  secure := false
  ready? := some fun it => it.peek.1.isSome

/-! ## Sessions that look ahead -/

/-- Takes a step.  Asking whether there is another value looks ahead. -/
def Step.takePeeking (limits : Limits) : Step → Counted Lookahead → Answer × Counted Lookahead
  | ready, held => ((ready.take ⟨.lookahead, limits⟩ held).1, ⟨held.state.peek.2, held.draws⟩)
  | step, held => step.take ⟨.lookahead, limits⟩ held

/-- The answers of a session that looks ahead, each with the number of
values drawn by then. -/
def peekingSessionFrom (limits : Limits) : List Step → Counted Lookahead → List (Answer × Nat)
  | [], _ => []
  | step :: steps, held =>
    let (answer, held) := step.takePeeking limits held
    (answer, held.draws) :: peekingSessionFrom limits steps held

/-- The iterator and the list of its values answer alike. -/
theorem lookahead_answerAlike :
    Source.AnswerAlike (fun it values => it.values = values) Source.lookahead Source.listed := by
  rintro max it values rfl
  simp only [Source.lookahead, Source.listed, EStateM.run]
  have hfound := it.next_fst.trans it.peek_fst
  have hleft := it.values_next
  generalize it.next = next at hfound hleft
  obtain ⟨found, it'⟩ := next
  cases hvalues : it.values with
  | nil =>
      rw [hvalues] at hfound hleft
      cases hfound
      exact .error hleft
  | cons value rest =>
      rw [hvalues] at hfound hleft
      cases hfound
      exact .ok hleft

theorem lookahead_alike (limits : Limits) :
    Engine.AlikeWithin (fun _ => True) (fun it values => it.values = values)
      ⟨.lookahead, limits⟩ ⟨.listed, limits⟩ where
  secure := rfl
  limits := rfl
  ready := by
    rintro it values rfl
    simp only [Source.lookahead, Source.listed, Option.map_some]
    rw [it.peek_fst]
    cases it.values with
    | nil => rfl
    | cons value rest => rfl
  answers := lookahead_answerAlike.within

theorem Step.takePeeking_eq (limits : Limits) (step : Step) {held : Counted Lookahead}
    {held' : Counted (List Nat)}
    (hheld : held.state.values = held'.state ∧ held.draws = held'.draws) :
    (step.takePeeking limits held).1 = (step.take ⟨.listed, limits⟩ held').1 ∧
      (step.takePeeking limits held).2.state.values =
        (step.take ⟨.listed, limits⟩ held').2.state ∧
      (step.takePeeking limits held).2.draws = (step.take ⟨.listed, limits⟩ held').2.draws := by
  obtain ⟨hanswer, hnext, -⟩ :=
    step.agree (lookahead_alike limits).agree hheld trivial fun _ _ => trivial
  cases step with
  | ready => exact ⟨hanswer, held.state.values_peek.trans hheld.1, hheld.2⟩
  | _ => exact ⟨hanswer, hnext⟩

/-- Looking ahead changes no answer, not then and not later. -/
theorem peekingSessionFrom_eq (limits : Limits) (steps : List Step) {held : Counted Lookahead}
    {held' : Counted (List Nat)}
    (hheld : held.state.values = held'.state ∧ held.draws = held'.draws) :
    peekingSessionFrom limits steps held = sessionFrom ⟨.listed, limits⟩ steps held' := by
  induction steps generalizing held held' with
  | nil => rfl
  | cons step steps ih =>
      obtain ⟨hanswer, hnext⟩ := step.takePeeking_eq limits hheld
      simp only [peekingSessionFrom, sessionFrom]
      rw [hanswer, hnext.2, ih hnext]

end DiceRoller
