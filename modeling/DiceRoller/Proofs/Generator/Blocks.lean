/-
# The blocks of a generator

Every step of the walk is a block, and every block gives a byte.  Numbered
from the seed on, they are a stream, and a draw takes from it as much as it
needs: the blocks it passes over and the one it accepts, and none for a
number that can only be 1 or is refused (`Wyrand.Takes`).

`Source.numbered` is the generator that knows the number of its last block
rather than its word.  Two sources answer as it does.

| | |
| :-- | :-- |
| `numbered_seeded` | the generator itself, at the word with that number |
| `numbered_bytes` | a list of bytes, without as many bytes at the front, as long as the blocks are those in the list |
-/
import Mathlib.Data.Nat.Find
import DiceRoller.Proofs.Generator.Walk
import DiceRoller.Proofs.Rolling.Log

namespace DiceRoller

variable {σ τ : Type}

namespace Wyrand

/-! ## Blocks -/

/-- The bytes of the first blocks after the seed. -/
def stream (seed : UInt64) (blocks : Nat) : List UInt8 :=
  (List.range blocks).map fun i => byte (next^[i + 1] seed)

@[simp] theorem length_stream (seed : UInt64) (blocks : Nat) :
    (stream seed blocks).length = blocks := by
  rw [stream, List.length_map, List.length_range]

theorem iterate_next_add (seed : UInt64) (made steps : Nat) :
    next^[made + steps] seed = next^[steps] (next^[made] seed) := by
  rw [Nat.add_comm, Function.iterate_add_apply]

namespace FirstAfter

variable {bound steps steps' : Nat} {word : UInt64}

theorem unique (h : FirstAfter bound word steps) (h' : FirstAfter bound word steps') :
    steps = steps' :=
  Nat.le_antisymm (h.le_of_accepted h'.pos h'.accepted) (h'.le_of_accepted h.pos h.accepted)

theorem tail (h : FirstAfter bound word (steps + 1)) (hpos : 0 < steps) :
    FirstAfter bound (next word) steps where
  pos := hpos
  accepted := by
    rw [← Function.iterate_succ_apply]
    exact h.accepted
  passedOver := by
    intro i hi hlt
    rw [← Function.iterate_succ_apply]
    exact h.passedOver (i + 1) (Nat.succ_pos i) (Nat.succ_lt_succ hlt)

end FirstAfter

theorem exists_accepted {bound : Nat} (pos : 0 < bound) (word : UInt64) :
    ∃ steps, 0 < steps ∧ (byte (next^[steps] word)).toNat < bound := by
  obtain ⟨steps, hfirst, -⟩ := exists_firstAfter bound pos word
  exact ⟨steps, hfirst.pos, hfirst.accepted⟩

/-- How many blocks it takes to find a byte below the bound. -/
def stepsBelow (bound : Nat) (pos : 0 < bound) (word : UInt64) : Nat :=
  Nat.find (exists_accepted pos word)

theorem firstAfter_stepsBelow {bound : Nat} (pos : 0 < bound) (word : UInt64) :
    FirstAfter bound word (stepsBelow bound pos word) where
  pos := (Nat.find_spec (exists_accepted pos word)).1
  accepted := (Nat.find_spec (exists_accepted pos word)).2
  passedOver := by
    intro i hi hlt
    by_contra haccepted
    exact Nat.find_min (exists_accepted pos word) hlt ⟨hi, Nat.not_le.mp haccepted⟩

/-- How a request is answered, and which block was the last one before and
after it. -/
inductive Takes (seed : UInt64) : Nat → Draw → Nat → Prop
  | none {made : Nat} : Takes seed made ⟨1, .ok 1⟩ made
  | blocks {made max steps : Nat} (range : 2 ≤ max ∧ max ≤ 256)
      (first : FirstAfter (cutoff max) (next^[made] seed) steps) :
      Takes seed made ⟨max, .ok ((byte (next^[made + steps] seed)).toNat % max + 1)⟩
        (made + steps)
  | refused {made max : Nat} (range : ¬ (1 ≤ max ∧ max ≤ 256)) :
      Takes seed made ⟨max, .error (.outOfRange max)⟩ made

/-- The draws take the blocks after the seed, each draw from where the one
before it ended, up to this block. -/
inductive TakesAll (seed : UInt64) : List Draw → Nat → Prop
  | nil : TakesAll seed [] 0
  | snoc {draws : List Draw} {draw : Draw} {made made' : Nat} :
      TakesAll seed draws made → Takes seed made draw made' →
        TakesAll seed (draws ++ [draw]) made'

/-- The first byte below the bound after so many blocks, and the number of
its block. -/
def numberedBelow (seed : UInt64) (bound : Nat) (pos : 0 < bound) (made : Nat) : UInt8 × Nat :=
  let made := made + stepsBelow bound pos (next^[made] seed)
  (byte (next^[made] seed), made)

end Wyrand

/-- Bytes that are searched for and always found. -/
def ByteSupply.ofSearch (search : (bound : Nat) → 0 < bound → σ → UInt8 × σ) : ByteSupply σ :=
  fun bound pos s =>
    let (byte, s) := search bound pos s
    .ok byte s

theorem ByteSupply.ofSearch_run (search : (bound : Nat) → 0 < bound → σ → UInt8 × σ)
    (bound : Nat) (pos : 0 < bound) (s : σ) :
    (ofSearch search bound pos).run s = .ok (search bound pos s).1 (search bound pos s).2 :=
  rfl

/-- Fair numbers from the generator; the state is the number of the last
block made. -/
def Source.numbered (seed : UInt64) : Source Nat where
  draw := uniformInt (.ofSearch (Wyrand.numberedBelow seed))
  secure := false
  ready? := none

/-! ## Numbers from bytes that are found alike -/

theorem uniformInt_eq_map (supply : ByteSupply σ) {max : Nat} (hrange : 1 ≤ max ∧ max ≤ 256)
    (hne : max ≠ 1) :
    uniformInt supply max =
      supply (cutoff max) (cutoff_pos hrange) >>= fun byte => pure (byte.toNat % max + 1) := by
  rw [uniformInt, dif_pos hrange, if_neg hne]

theorem answerAlikeWithin_of_supply {W : σ → Prop} {R : σ → τ → Prop} (supply : ByteSupply σ)
    (supply' : ByteSupply τ) {source : Source σ} {source' : Source τ}
    (hsource : source.draw = uniformInt supply) (hsource' : source'.draw = uniformInt supply')
    (hbefore : ∀ bound pos s, W (endState ((supply bound pos).run s)) → W s)
    (hanswers : ∀ bound pos s t, R s t → W (endState ((supply bound pos).run s)) →
      SameEnd R ((supply bound pos).run s) ((supply' bound pos).run t)) :
    Source.AnswerAlikeWithin W R source source' where
  before := by
    intro max s hend
    rw [hsource] at hend
    by_cases hrange : 1 ≤ max ∧ max ≤ 256
    · by_cases hone : max = 1
      · subst hone
        exact hend
      · rw [uniformInt_eq_map supply hrange hone, EStateM.run_bind] at hend
        apply hbefore (cutoff max) (cutoff_pos hrange) s
        generalize (supply (cutoff max) (cutoff_pos hrange)).run s = found at hend ⊢
        cases found with
        | ok byte s' => exact hend
        | error error s' => exact hend
    · rw [uniformInt, dif_neg hrange] at hend
      exact hend
  answers := by
    intro max s t hst hend
    rw [hsource] at hend ⊢
    rw [hsource']
    by_cases hrange : 1 ≤ max ∧ max ≤ 256
    · by_cases hone : max = 1
      · subst hone
        exact .ok hst
      · rw [uniformInt_eq_map supply hrange hone, EStateM.run_bind] at hend ⊢
        rw [uniformInt_eq_map supply' hrange hone, EStateM.run_bind]
        have hfound := hanswers (cutoff max) (cutoff_pos hrange) s t hst
        generalize (supply (cutoff max) (cutoff_pos hrange)).run s = found at hend hfound ⊢
        generalize (supply' (cutoff max) (cutoff_pos hrange)).run t = found' at hfound
        cases found with
        | ok byte s' =>
            cases hfound hend with
            | ok hst' => exact .ok hst'
        | error error s' =>
            cases hfound hend with
            | error hst' => exact .error hst'
    · rw [uniformInt, dif_neg hrange, uniformInt, dif_neg hrange]
      exact .error hst

/-! ## What a draw takes -/

open Wyrand

theorem numbered_draw {seed : UInt64} {max made steps : Nat} (hrange : 1 ≤ max ∧ max ≤ 256)
    (hne : max ≠ 1) (hfirst : FirstAfter (cutoff max) (next^[made] seed) steps) :
    (Source.numbered seed).draw max made =
      .ok ((byte (next^[made + steps] seed)).toNat % max + 1) (made + steps) := by
  obtain rfl := hfirst.unique (firstAfter_stepsBelow (cutoff_pos hrange) _)
  change uniformInt (.ofSearch (numberedBelow seed)) max made = _
  rw [uniformInt_eq_map _ hrange hne]
  rfl

theorem numbered_takes {seed : UInt64} {made made' : Nat} {draw : Draw}
    (h : (Source.numbered seed).draw draw.max made = draw.ending made') :
    Takes seed made draw made' := by
  obtain ⟨max, answer⟩ := draw
  dsimp only at h
  by_cases hrange : 1 ≤ max ∧ max ≤ 256
  · by_cases hone : max = 1
    · subst hone
      cases answer with
      | ok value => cases h; exact .none
      | error error => exact nomatch h
    · have hfirst := firstAfter_stepsBelow (cutoff_pos hrange) (next^[made] seed)
      rw [numbered_draw hrange hone hfirst] at h
      cases answer with
      | ok value => cases h; exact .blocks (by omega) hfirst
      | error error => exact nomatch h
  · change uniformInt (.ofSearch (numberedBelow seed)) max made = _ at h
    rw [uniformInt, dif_neg hrange] at h
    cases answer with
    | ok value => exact nomatch h
    | error error => cases h; exact .refused hrange

theorem numbered_takesAll {seed : UInt64} {draws : List Draw} {made : Nat}
    (h : (Source.numbered seed).Gave 0 draws made) : TakesAll seed draws made := by
  induction h with
  | nil => exact .nil
  | snoc hgave hdraw ih => exact ih.snoc (numbered_takes hdraw)

/-! ## Sources that take the same blocks -/

/-- The generator answers as its blocks are numbered. -/
theorem numbered_seeded (seed : UInt64) :
    Source.AnswerAlikeWithin (fun _ => True) (fun made word => word = next^[made] seed)
      (Source.numbered seed) Source.seeded := by
  refine answerAlikeWithin_of_supply (.ofSearch (numberedBelow seed)) (.ofSearch Wyrand.firstBelow)
    rfl rfl (fun _ _ _ _ => trivial) ?_
  rintro bound pos made word rfl -
  obtain ⟨steps, hfirst, hbelow⟩ := exists_firstAfter bound pos (next^[made] seed)
  have hsteps := hfirst.unique (firstAfter_stepsBelow pos _)
  rw [ByteSupply.ofSearch_run, ByteSupply.ofSearch_run, hbelow, hsteps, numberedBelow,
    ← iterate_next_add]
  exact .ok rfl

section Bytes

variable {seed : UInt64} {blocks : Nat} {bytes : List UInt8}

theorem drop_eq_byte_cons (hbytes : stream seed blocks <+: bytes) {made : Nat}
    (h : made < blocks) :
    bytes.drop made = byte (next^[made + 1] seed) :: bytes.drop (made + 1) := by
  have hlength : made < (stream seed blocks).length := by rw [length_stream]; exact h
  have hle := hbytes.length_le
  rw [List.drop_eq_getElem_cons (Nat.lt_of_lt_of_le hlength hle), ← hbytes.getElem hlength]
  simp only [stream, List.getElem_map, List.getElem_range]

/-- The search through the bytes ends at the block where the generator's
ends. -/
theorem firstBelow_drop (hbytes : stream seed blocks <+: bytes) {bound made steps : Nat}
    (h : FirstAfter bound (next^[made] seed) steps) (hle : made + steps ≤ blocks) :
    (firstBelow bound).run (bytes.drop made) =
      .ok (byte (next^[made + steps] seed)) (bytes.drop (made + steps)) := by
  induction steps generalizing made with
  | zero => exact absurd h.pos (Nat.lt_irrefl 0)
  | succ steps ih =>
      have hnext : next (next^[made] seed) = next^[made + 1] seed :=
        (Function.iterate_succ_apply' next made seed).symm
      rw [drop_eq_byte_cons hbytes (by omega), EStateM.run, firstBelow]
      cases steps with
      | zero =>
          have haccepted := h.accepted
          rw [Function.iterate_one, hnext] at haccepted
          rw [if_pos haccepted]
      | succ steps =>
          have hpassed := h.passedOver 1 Nat.one_pos (by omega)
          rw [Function.iterate_one, hnext] at hpassed
          rw [if_neg (Nat.not_lt.mpr hpassed)]
          have htail := h.tail (Nat.succ_pos steps)
          rw [hnext] at htail
          have hrest := ih htail (by omega)
          rw [Nat.add_right_comm made 1] at hrest
          exact hrest

/-- A list that begins with the bytes of these blocks answers as the
generator does, as long as it makes no others. -/
theorem numbered_bytes (hbytes : stream seed blocks <+: bytes) :
    Source.AnswerAlikeWithin (fun made => made ≤ blocks)
      (fun made left => left = bytes.drop made) (Source.numbered seed) Source.bytes := by
  refine answerAlikeWithin_of_supply (.ofSearch (numberedBelow seed))
    (fun bound _ => firstBelow bound) rfl rfl ?_ ?_
  · intro bound pos made hend
    rw [ByteSupply.ofSearch_run, numberedBelow, endState] at hend
    exact Nat.le_trans (Nat.le_add_right made _) hend
  · rintro bound pos made left rfl hend
    rw [ByteSupply.ofSearch_run, numberedBelow, endState] at hend
    rw [ByteSupply.ofSearch_run, numberedBelow,
      firstBelow_drop hbytes (firstAfter_stepsBelow pos _) hend]
    exact .ok rfl

end Bytes

end DiceRoller
