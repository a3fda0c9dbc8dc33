/-
# A seeded session reads a stream of bytes

Rolling with a seeded generator is rolling with a list of bytes: those of
its blocks, one after the other from the seed on.  The list has to be long
enough, and how long can be told from the session: up to the highest block
that is made for the engine or for any of its copies (`highestBlock`).

The generator, numbered, is followed by two engines at once.

    the generator itself       always        word `next^[made] seed`
    the list of bytes          made ≤ N      all bytes but the first `made`

All three draw alike, and the log of the session tells that the blocks are
made for its draws, one after the other, and for nothing else
(`Wyrand.TakesAll`): not for steps that fail, and not for copies.
-/
import Mathlib.Data.List.MinMax
import DiceRoller.Proofs.Generator.Blocks
import DiceRoller.Proofs.Session.Drawn

namespace DiceRoller

open Source (Counted)
open Wyrand (FirstAfter next stream TakesAll)

section Seeded

variable (seed : UInt64) (limits : Limits) (steps : List Step)

/-- The highest block made in a session, for the engine or for a copy. -/
def highestBlock : Nat :=
  ((reachedFrom ⟨.numbered seed, limits⟩ steps ⟨0, 0⟩).map Counted.state).foldr max 0

theorem le_highestBlock :
    ∀ reached ∈ reachedFrom ⟨.numbered seed, limits⟩ steps ⟨0, 0⟩,
      reached.state ≤ highestBlock seed limits steps :=
  fun _ hmem => List.le_max_of_le' 0 (List.mem_map_of_mem hmem) (Nat.le_refl _)

theorem seeded_alike :
    Engine.AlikeWithin (fun _ => True) (fun made word => word = next^[made] seed)
      ⟨.numbered seed, limits⟩ ⟨.seeded, limits⟩ where
  secure := rfl
  limits := rfl
  ready := fun _ => rfl
  answers := numbered_seeded seed

theorem bytes_alike {blocks : Nat} {bytes : List UInt8} (hbytes : stream seed blocks <+: bytes) :
    Engine.AlikeWithin (fun made => made ≤ blocks) (fun made left => left = bytes.drop made)
      ⟨.numbered seed, limits⟩ ⟨.bytes, limits⟩ where
  secure := rfl
  limits := rfl
  ready := fun _ => rfl
  answers := numbered_bytes hbytes

/-- A session with a seeded generator is the session with a list of bytes
that begins with the bytes of its blocks, as many as are made for the
engine or for a copy.  The answers are the same, and so are the draws.
Blocks are made for draws only, by each one as many as it passes over and
the one it accepts, and none for a number that can only be 1 or is
refused; so the blocks made are those of the draws in the log. -/
theorem seeded_session_reads_stream (bytes : List UInt8)
    (hbytes : stream seed (highestBlock seed limits steps) <+: bytes) :
    session ⟨.bytes, limits⟩ bytes steps = session ⟨.seeded, limits⟩ seed steps ∧
    drawnFrom ⟨.bytes, limits⟩ steps ⟨bytes, 0⟩ =
      drawnFrom ⟨.seeded, limits⟩ steps ⟨seed, 0⟩ ∧
    -- the numbers of the blocks are those of the generator's words
    List.Forall₂ (fun (numbered : Counted Nat) (reached : Counted UInt64) =>
        reached.state = next^[numbered.state] seed ∧ numbered.draws = reached.draws)
      (reachedFrom ⟨.numbered seed, limits⟩ steps ⟨0, 0⟩)
      (reachedFrom ⟨.seeded, limits⟩ steps ⟨seed, 0⟩) ∧
    -- the blocks made are those that the draws take
    let made := (afterSteps ⟨.numbered seed, limits⟩ steps ⟨0, 0⟩).state
    TakesAll seed (drawnFrom ⟨.seeded, limits⟩ steps ⟨seed, 0⟩) made ∧
      (afterSteps ⟨.seeded, limits⟩ steps ⟨seed, 0⟩).state = next^[made] seed ∧
      (afterSteps ⟨.bytes, limits⟩ steps ⟨bytes, 0⟩).state = bytes.drop made := by
  have hseeded := seeded_alike seed limits
  have hbytes' := bytes_alike seed limits hbytes
  have hwithin := le_highestBlock seed limits steps
  obtain ⟨hanswers, hreached, hword, -⟩ :=
    sessions_agree hseeded.agree steps ⟨0, 0⟩ ⟨seed, 0⟩ ⟨rfl, rfl⟩ fun _ _ => trivial
  obtain ⟨hanswers', -, hleft, -⟩ :=
    sessions_agree hbytes'.agree steps ⟨0, 0⟩ ⟨bytes, 0⟩ ⟨rfl, rfl⟩ hwithin
  have hdrawn :=
    drawnFrom_alike hseeded steps ⟨0, 0⟩ ⟨seed, 0⟩ ⟨rfl, rfl⟩ fun _ _ => trivial
  have hdrawn' := drawnFrom_alike hbytes' steps ⟨0, 0⟩ ⟨bytes, 0⟩ ⟨rfl, rfl⟩ hwithin
  refine ⟨hanswers'.symm.trans hanswers, hdrawn'.symm.trans hdrawn, hreached, ?_, hword, hleft⟩
  rw [← hdrawn]
  exact numbered_takesAll (drawnFrom_gave ⟨.numbered seed, limits⟩ steps ⟨0, 0⟩).1

end Seeded

/-- A number up to 200, for which the first byte is too large and the
second one is not; a request that is refused; and a number for which a
copy takes the third byte. -/
def passedOverOnce : List Step :=
  [.draw 200, .draw 0, .aside (.draw 6)]

theorem highestBlock_passedOverOnce : highestBlock 3 default passedOverOnce = 3 := by
  have hfirst : FirstAfter (cutoff 200) (next^[0] 3) 2 := .succ (by decide) (.one (by decide))
  have hthird : FirstAfter (cutoff 6) (next^[2] 3) 1 := .one (by decide)
  have hdraw : (Step.draw 200).take ⟨.numbered 3, default⟩ ⟨0, 0⟩ = (_, ⟨2, 1⟩) :=
    Step.take_draw_of_ok (numbered_draw (by decide) (by decide) hfirst)
  have hrefused : (Step.draw 0).take ⟨.numbered 3, default⟩ ⟨2, 1⟩ = (_, ⟨2, 1⟩) :=
    Step.take_draw_of_error rfl
  have hcopy : (Step.draw 6).take ⟨.numbered 3, default⟩ ⟨2, 1⟩ = (_, ⟨3, 2⟩) :=
    Step.take_draw_of_ok (numbered_draw (by decide) (by decide) hthird)
  have haside : ((Step.draw 6).aside.take ⟨.numbered 3, default⟩ ⟨2, 1⟩).2 = ⟨2, 1⟩ := rfl
  simp only [highestBlock, passedOverOnce, reachedFrom, Step.copies, hdraw, hrefused, hcopy, haside]
  decide

/-- The answers can be read off the bytes. -/
theorem seeded_session_reads_stream_passed_over :
    stream 3 (highestBlock 3 default passedOverOnce) <+: [226, 154, 49] ∧
    session ⟨.seeded, default⟩ 3 passedOverOnce =
      [(.value 155, 1), (.failed (.dice (.outOfRange 0)), 1), (.aside (.value 2) 2, 1)] := by
  have hbytes : stream 3 (highestBlock 3 default passedOverOnce) <+: [226, 154, 49] := by
    rw [highestBlock_passedOverOnce]
    decide
  obtain ⟨hanswers, -⟩ := seeded_session_reads_stream 3 default passedOverOnce _ hbytes
  refine ⟨hbytes, ?_⟩
  rw [← hanswers]
  decide

end DiceRoller
