/-
# Writing that can be read back in front of other text

An account is put together from pieces: numbers, lists of numbers, signs.
Whether it can be read back is a question about each piece, *in front of*
whatever follows it: digits after a number would belong to the number, and
a separator after a list to the list.

`Legible write After` says that a piece written by `write` can be told
from what follows, as long as that is one of the texts of `After`.  Then
two texts that begin with such pieces begin with the same one, and go on
in the same way.  Pieces that stand one after the other, pieces between
signs, and lists of pieces are legible if the pieces are, and if what
follows each of them suits it (`seq`, `enclosed`, `separated`).  At the end
of a text nothing follows, and there a legible piece is determined by its
text (`injective`).
-/
import DiceRoller.Proofs.Notation.Phrase

namespace DiceRoller

/-- What is written can be told from what comes after it, if that is one
of the texts of `After`. -/
def Legible {α : Type} (write : α → List Char) (After : List Char → Prop) : Prop :=
  ∀ ⦃a b : α⦄ ⦃r s : List Char⦄, After r → After s → write a ++ r = write b ++ s →
    a = b ∧ r = s

/-- The text does not go on with this. -/
def NotAhead (sign text : List Char) : Prop :=
  ¬ sign <+: text

theorem notAhead_nil {c : Char} {sign : List Char} : NotAhead (c :: sign) [] := by
  intro h
  exact nomatch List.prefix_nil.mp h

theorem notAhead_of_ne {c d : Char} {sign text : List Char} (h : c ≠ d) :
    NotAhead (c :: sign) (d :: text) := by
  intro hprefix
  exact h (List.cons_prefix_cons.mp hprefix).1

theorem notAhead_cons {c : Char} {sign text : List Char} (h : NotAhead sign text) :
    NotAhead (c :: sign) (c :: text) := by
  intro hprefix
  exact h (List.cons_prefix_cons.mp hprefix).2

theorem NotAhead.append {sign text : List Char} (h : NotAhead sign text) (more : List Char) :
    NotAhead (sign ++ more) text := by
  intro hprefix
  exact h ((List.prefix_append sign more).trans hprefix)

namespace Legible

variable {α β : Type} {P Q : List Char → Prop} {u : α → List Char} {v : β → List Char}

theorem mono (h : Legible u P) (hPQ : ∀ r, Q r → P r) : Legible u Q := by
  intro a b r s hr hs he
  exact h (hPQ r hr) (hPQ s hs) he

theorem injective (h : Legible u P) (hnil : P []) : Function.Injective u := by
  intro a b he
  exact (h hnil hnil (congrArg (· ++ []) he)).1

theorem comap {f : β → α} (h : Legible u P) (hf : Function.Injective f)
    (hv : ∀ b, v b = u (f b)) : Legible v P := by
  intro a b r s hr hs he
  rw [hv, hv] at he
  obtain ⟨hab, hrs⟩ := h hr hs he
  exact ⟨hf hab, hrs⟩

theorem seq (hu : Legible u P) (hv : Legible v Q) (hfollow : ∀ b r, Q r → P (v b ++ r)) :
    Legible (fun p : α × β => u p.1 ++ v p.2) Q := by
  rintro ⟨a, b⟩ ⟨a', b'⟩ r s hr hs he
  simp only [List.append_assoc] at he
  obtain ⟨ha, hrest⟩ := hu (hfollow b r hr) (hfollow b' s hs) he
  obtain ⟨hb, hend⟩ := hv hr hs hrest
  exact ⟨Prod.ext ha hb, hend⟩

theorem followed (hu : Legible u P) (w : α → List Char) (hfollow : ∀ a r, Q r → P (w a ++ r)) :
    Legible (fun a => u a ++ w a) Q := by
  intro a b r s hr hs he
  simp only [List.append_assoc] at he
  obtain ⟨rfl, hrest⟩ := hu (hfollow a r hr) (hfollow b s hs) he
  exact ⟨rfl, List.append_cancel_left hrest⟩

theorem after (hu : Legible u P) (sign : List Char) : Legible (fun a => sign ++ u a) P := by
  intro a b r s hr hs he
  rw [List.append_assoc, List.append_assoc] at he
  exact hu hr hs (List.append_cancel_left he)

theorem optional (hu : Legible u P) :
    Legible (fun o : Option α => (o.map u).getD []) fun r => P r ∧ ∀ a, NotAhead (u a) r := by
  intro o o' r s hr hs he
  cases o with
  | none =>
      cases o' with
      | none => exact ⟨rfl, he⟩
      | some b => exact absurd ⟨s, he.symm⟩ (hr.2 b)
  | some a =>
      cases o' with
      | none => exact absurd ⟨r, he⟩ (hs.2 a)
      | some b =>
          obtain ⟨hab, hrs⟩ := hu hr.1 hs.1 he
          exact ⟨congrArg some hab, hrs⟩

theorem mark (sign : List Char) :
    Legible (fun there : Bool => if there then sign else []) (NotAhead sign) := by
  intro a b r s hr hs he
  cases a <;> cases b
  · exact ⟨rfl, he⟩
  · exact absurd ⟨s, he.symm⟩ hr
  · exact absurd ⟨r, he⟩ hs
  · exact ⟨rfl, List.append_cancel_left he⟩

theorem notAhead_mark {sign mark r : List Char} (there : Bool)
    (hmark : NotAhead sign (mark ++ r)) (hr : NotAhead sign r) :
    NotAhead sign ((if there then mark else []) ++ r) := by
  cases there with
  | true => exact hmark
  | false => exact hr

/-! ## Lists -/

theorem after_preceded {sep : List Char} (hsep : ∀ r, P (sep ++ r)) (xs : List α) {r : List Char} (hr : P r) :
    P ((xs.flatMap fun x => sep ++ u x) ++ r) := by
  cases xs with
  | nil => exact hr
  | cons x xs =>
      simp only [List.flatMap_cons, List.append_assoc]
      exact hsep _

/-- Pieces that each follow a separator.  The end of the list is seen by
the absence of another one. -/
theorem preceded (hu : Legible u P) (sep : List Char) (hsep : ∀ r, P (sep ++ r)) :
    Legible (fun xs : List α => xs.flatMap fun x => sep ++ u x)
      fun r => P r ∧ NotAhead sep r := by
  intro xs ys r s hr hs he
  induction xs generalizing ys with
  | nil =>
      cases ys with
      | nil => exact ⟨rfl, he⟩
      | cons y ys =>
          simp only [List.flatMap_nil, List.nil_append, List.flatMap_cons,
            List.append_assoc] at he
          exact absurd ⟨_, he.symm⟩ hr.2
  | cons x xs ih =>
      cases ys with
      | nil =>
          simp only [List.flatMap_nil, List.nil_append, List.flatMap_cons,
            List.append_assoc] at he
          exact absurd ⟨_, he⟩ hs.2
      | cons y ys =>
          simp only [List.flatMap_cons, List.append_assoc,
            List.append_cancel_left_eq] at he
          obtain ⟨hxy, hrest⟩ := hu (after_preceded hsep xs hr.1)
            (after_preceded hsep ys hs.1) he
          obtain ⟨hxys, hend⟩ := ih hrest
          exact ⟨by rw [hxy, hxys], hend⟩

theorem intercalate_map_cons (sep : List Char) (x : α) (xs : List α) :
    sep.intercalate ((x :: xs).map u) = u x ++ xs.flatMap fun y => sep ++ u y := by
  induction xs generalizing x with
  | nil => simp
  | cons y xs ih =>
      rw [List.map_cons, List.map_cons, List.intercalate_cons_cons, ← List.map_cons, ih,
        List.flatMap_cons, List.append_assoc, List.append_assoc]

/-- Pieces with separators between them.  What follows must not look like
one more piece, for the list may be empty. -/
theorem separated (hu : Legible u P) (sep : List Char) (hsep : ∀ r, P (sep ++ r)) :
    Legible (fun xs : List α => sep.intercalate (xs.map u))
      fun r => (P r ∧ NotAhead sep r) ∧ ∀ a, NotAhead (u a) r := by
  -- unless there are none, the first piece stands before the others
  have hcons : Legible (fun p : α × List α => u p.1 ++ p.2.flatMap fun x => sep ++ u x)
      fun r => P r ∧ NotAhead sep r :=
    seq hu (preceded hu sep hsep) fun xs r hr => after_preceded hsep xs hr.1
  intro xs ys r s hr hs he
  dsimp only at he
  cases xs with
  | nil =>
      cases ys with
      | nil => exact ⟨rfl, he⟩
      | cons y ys =>
          rw [intercalate_map_cons, List.append_assoc] at he
          exact absurd ⟨_, he.symm⟩ (hr.2 y)
  | cons x xs =>
      cases ys with
      | nil =>
          rw [intercalate_map_cons, List.append_assoc] at he
          exact absurd ⟨_, he⟩ (hs.2 x)
      | cons y ys =>
          rw [intercalate_map_cons, intercalate_map_cons] at he
          obtain ⟨hfirst, hend⟩ := @hcons (x, xs) (y, ys) r s hr.1 hs.1 he
          rw [Prod.mk.injEq] at hfirst
          exact ⟨by rw [hfirst.1, hfirst.2], hend⟩

end Legible

end DiceRoller
