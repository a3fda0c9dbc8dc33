/-
# Readers: one character at a time

A reader goes over a text once.  It holds what it has understood so far,
takes one character after the other, and says at each what it expected if
the character does not fit.  So it never goes back, and the place where it
stops is the place of the fault: the characters before it made sense, and
this one cannot follow them.

What a reader holds after a stretch of text is `advance`.  Reading two
stretches one after the other is the same as reading them together
(`advance_append`), and reading a whole text is advancing over it and then
finishing (`read_eq_ok_iff`).
-/
import DiceRoller.Notation.Fault

namespace DiceRoller

/-- A way of reading texts: `σ` is what is held on the way, `α` what comes
out at the end.  A character that does not fit, or an end that does not,
says what was expected instead. -/
structure Reader (σ α : Type) where
  start : σ
  step : σ → Char → Except (List Expected) σ
  finish : σ → Except (List Expected) α

namespace Reader

variable {σ α : Type} (reader : Reader σ α)

/-- What is held after more characters, if all of them fit. -/
def advance : σ → List Char → Except (List Expected) σ
  | held, [] => .ok held
  | held, c :: rest =>
    match reader.step held c with
    | .ok held => advance held rest
    | .error expected => .error expected

/-- Reads on from what is held, `offset` bytes into the text. -/
def readFrom (offset : Nat) : σ → List Char → Except Fault α
  | held, [] =>
    match reader.finish held with
    | .ok result => .ok result
    | .error expected => .error ⟨offset, none, expected⟩
  | held, c :: rest =>
    match reader.step held c with
    | .ok held => readFrom (offset + c.utf8Size) held rest
    | .error expected => .error ⟨offset, some c, expected⟩

def read (text : List Char) : Except Fault α :=
  reader.readFrom 0 reader.start text

/-! ## Reading in stretches -/

theorem advance_append (held : σ) (first second : List Char) :
    reader.advance held (first ++ second) =
      (reader.advance held first).bind fun held => reader.advance held second := by
  induction first generalizing held with
  | nil => rfl
  | cons c rest ih =>
      simp only [List.cons_append, advance]
      cases reader.step held c with
      | ok held => exact ih held
      | error expected => rfl

theorem readFrom_eq_ok_iff {offset : Nat} {held : σ} {text : List Char}
    {result : α} :
    reader.readFrom offset held text = .ok result ↔
      ∃ last, reader.advance held text = .ok last ∧
        reader.finish last = .ok result := by
  induction text generalizing held offset with
  | nil =>
      simp only [readFrom, advance]
      cases h : reader.finish held <;> simp [h]
  | cons c rest ih =>
      simp only [readFrom, advance]
      cases reader.step held c with
      | ok held => exact ih
      | error expected => simp

theorem read_eq_ok_iff {text : List Char} {result : α} :
    reader.read text = .ok result ↔
      ∃ last, reader.advance reader.start text = .ok last ∧
        reader.finish last = .ok result :=
  reader.readFrom_eq_ok_iff

end Reader

end DiceRoller
