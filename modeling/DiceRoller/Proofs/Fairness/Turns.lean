/-
# Numbers from bytes, turn by turn

`uniformInt` leaves the search for a byte to its supply and knows that one
byte is enough.  Here the same number is drawn the long way.  A turn works
out how many bytes `max` needs, fills a buffer of that width, reads it as
one number with the most significant byte first, and makes a value of that
number if it is below the largest multiple of `max` in reach.  Otherwise it
gives nothing, and there is another turn.

No turn says how many there will be.  So the loop is a relation between a
state and an ending, and what has to be shown is that there is an ending,
and only one (`Repeats.unique`), and that it is the one of `uniformInt`.

| `max` | width | below the limit | |
| :-- | :-- | :-- | :-- |
| 1 | 0 | always | the empty buffer is the number 0 |
| 2 to 256 | 1 | bytes below `cutoff max` | all bytes if `max` divides 256 |

A remainder is less than 256 and so never too large to be a value.
-/
import Mathlib.Order.Bounds.Defs
import DiceRoller.Dice
import DiceRoller.Source.Uniform

namespace DiceRoller

variable {ε σ α : Type}

/-! ## Loops without a bound -/

/-- How a computation ends that takes the same turn again and again, until
one gives a value or fails. -/
inductive Repeats (turn : EStateM ε σ (Option α)) : σ → EStateM.Result ε σ α → Prop
  | given {s s' : σ} {a : α} : turn.run s = .ok (some a) s' → Repeats turn s (.ok a s')
  | failed {s s' : σ} {e : ε} : turn.run s = .error e s' → Repeats turn s (.error e s')
  | again {s s' : σ} {ending : EStateM.Result ε σ α} :
      turn.run s = .ok none s' → Repeats turn s' ending → Repeats turn s ending

/-- A loop ends in one way only. -/
theorem Repeats.unique {turn : EStateM ε σ (Option α)} {s : σ}
    {ending ending' : EStateM.Result ε σ α} (h : Repeats turn s ending)
    (h' : Repeats turn s ending') : ending = ending' := by
  induction h with
  | given hturn =>
      cases h' with
      | given hturn' => cases hturn.symm.trans hturn'; rfl
      | failed hturn' => exact nomatch hturn.symm.trans hturn'
      | again hturn' _ => exact nomatch hturn.symm.trans hturn'
  | failed hturn =>
      cases h' with
      | given hturn' => exact nomatch hturn.symm.trans hturn'
      | failed hturn' => cases hturn.symm.trans hturn'; rfl
      | again hturn' _ => exact nomatch hturn.symm.trans hturn'
  | again hturn _ ih =>
      cases h' with
      | given hturn' => exact nomatch hturn.symm.trans hturn'
      | failed hturn' => exact nomatch hturn.symm.trans hturn'
      | again hturn' hrest => cases hturn.symm.trans hturn'; exact ih hrest

/-! ## Buffers -/

/-- Fills a buffer of so many bytes. -/
abbrev ByteFiller (σ : Type) : Type :=
  (width : Nat) → Rolling σ (Vector UInt8 width)

/-- The least width from this one on whose buffers reach up to `max`. -/
def widthFrom (max width : Nat) : Nat :=
  if 1 <<< (8 * width) < max then widthFrom max (width + 1) else width
termination_by max - width
decreasing_by
  next hshort =>
    have hlt : 8 * width < 2 ^ (8 * width) := Nat.lt_two_pow_self
    rw [Nat.one_shiftLeft] at hshort
    omega

def byteWidth (max : Nat) : Nat :=
  widthFrom max 0

/-- The number that a buffer stands for, with the most significant byte
first. -/
def bigEndian {width : Nat} (bytes : Vector UInt8 width) : Nat :=
  bytes.foldl (fun number byte => number <<< 8 ||| byte.toNat) 0

/-- One turn of a draw: a value up to `max`, if the number in the buffer is
below the largest multiple of `max` that it could reach. -/
def drawTurn (fill : ByteFiller σ) (max : Nat) : Rolling σ (Option Nat) := do
  let bytes ← fill (byteWidth max)
  let number := bigEndian bytes
  if number < 1 <<< (8 * byteWidth max) / max * max then
    match bounded? (number % max) with
    | some remainder => pure (some (remainder + 1))
    | none => throw .overflow
  else pure none

def EndsByTurns (fill : ByteFiller σ) (max : Nat) (s : σ)
    (ending : EStateM.Result DiceError σ Nat) : Prop :=
  if 1 ≤ max ∧ max ≤ 256 then Repeats (drawTurn fill max) s ending
  else ending = .error (.outOfRange max) s

theorem EndsByTurns.unique {fill : ByteFiller σ} {max : Nat} {s : σ}
    {ending ending' : EStateM.Result DiceError σ Nat} (h : EndsByTurns fill max s ending)
    (h' : EndsByTurns fill max s ending') : ending = ending' := by
  rw [EndsByTurns] at h h'
  split at h
  · next hrange =>
      rw [if_pos hrange] at h'
      exact h.unique h'
  · next hrange =>
      rw [if_neg hrange] at h'
      exact h.trans h'.symm

theorem byteWidth_one : byteWidth 1 = 0 := by
  rw [byteWidth, widthFrom]
  rfl

theorem byteWidth_of_range {max : Nat} (h : 2 ≤ max ∧ max ≤ 256) : byteWidth max = 1 := by
  obtain ⟨hlow, hhigh⟩ := h
  have hnone : 1 <<< (8 * 0) < max := hlow
  have hone : ¬ 1 <<< (8 * (0 + 1)) < max := Nat.not_lt.mpr hhigh
  rw [byteWidth, widthFrom, if_pos hnone, widthFrom, if_neg hone]

theorem bigEndian_empty (bytes : Vector UInt8 0) : bigEndian bytes = 0 := by
  obtain rfl : bytes = #v[] := Vector.eq_empty
  rfl

theorem bigEndian_single (bytes : Vector UInt8 1) : bigEndian bytes = bytes[0].toNat := by
  obtain ⟨⟨bytes⟩, hsize⟩ := bytes
  obtain ⟨byte, rfl⟩ := List.length_eq_one_iff.mp hsize
  simp [bigEndian]

theorem drawTurn_one (fill : ByteFiller σ) :
    drawTurn fill 1 = fill 0 >>= fun _ => pure (some 1) := by
  rw [drawTurn, byteWidth_one]
  refine bind_congr fun bytes => ?_
  rw [bigEndian_empty]
  rfl

theorem drawTurn_of_range (fill : ByteFiller σ) {max : Nat} (h : 2 ≤ max ∧ max ≤ 256) :
    drawTurn fill max = fill 1 >>= fun bytes =>
      pure (if bytes[0].toNat < cutoff max then some (bytes[0].toNat % max + 1) else none) := by
  obtain ⟨hlow, hhigh⟩ := h
  rw [drawTurn, byteWidth_of_range ⟨hlow, hhigh⟩]
  refine bind_congr fun bytes => ?_
  have hremainder : bigEndian bytes % max < totalBound := by
    have hlt : bigEndian bytes % max < max := Nat.mod_lt _ (by omega)
    exact Nat.lt_trans hlt (Nat.lt_of_le_of_lt hhigh (by decide))
  dsimp only
  rw [bounded?_eq_some.mpr ⟨hremainder, rfl⟩, bigEndian_single]
  change (if bytes[0].toNat < cutoff max then _ else _) = _
  split
  · rfl
  · rfl

/-! ## Bytes in a list -/

/-- Fills buffers from the front of a list.  The list that is too short is
used up, and this is the failure. -/
def fillFront (failure : DiceError) : ByteFiller (List UInt8) := fun width bytes =>
  if h : width ≤ bytes.length then
    .ok ⟨(bytes.take width).toArray, by simp [h]⟩ (bytes.drop width)
  else .error failure []

/-- How a draw from a list of bytes ends, told by the first byte below the
cutoff. -/
def answerFrom (failure : DiceError) (max : Nat) (bytes : List UInt8) :
    EStateM.Result DiceError (List UInt8) Nat :=
  if ¬ (1 ≤ max ∧ max ≤ 256) then .error (.outOfRange max) bytes
  else if max = 1 then .ok 1 bytes
  else match bytes.dropWhile fun byte => cutoff max ≤ byte.toNat with
    | [] => .error failure []
    | byte :: left => .ok (byte.toNat % max + 1) left

section Lists

variable (failure : DiceError) {max : Nat}

theorem drawTurn_nil (h : 2 ≤ max ∧ max ≤ 256) :
    (drawTurn (fillFront failure) max).run [] = .error failure [] := by
  rw [drawTurn_of_range _ h]
  rfl

theorem drawTurn_cons (h : 2 ≤ max ∧ max ≤ 256) (byte : UInt8) (bytes : List UInt8) :
    (drawTurn (fillFront failure) max).run (byte :: bytes) =
      .ok (if byte.toNat < cutoff max then some (byte.toNat % max + 1) else none) bytes := by
  rw [drawTurn_of_range _ h]
  rfl

theorem answerFrom_of_range (h : 2 ≤ max ∧ max ≤ 256) (bytes : List UInt8) :
    answerFrom failure max bytes =
      match bytes.dropWhile fun byte => cutoff max ≤ byte.toNat with
      | [] => .error failure []
      | byte :: left => .ok (byte.toNat % max + 1) left := by
  obtain ⟨hlow, hhigh⟩ := h
  rw [answerFrom, if_neg (not_not_intro ⟨by omega, hhigh⟩), if_neg (by omega)]

theorem answerFrom_append (h : 2 ≤ max ∧ max ≤ 256) {before : List UInt8}
    (hbefore : ∀ byte ∈ before, cutoff max ≤ byte.toNat) (bytes : List UInt8) :
    answerFrom failure max (before ++ bytes) = answerFrom failure max bytes := by
  rw [answerFrom_of_range failure h, answerFrom_of_range failure h, List.dropWhile_append_of_pos]
  exact fun byte hbyte => decide_eq_true (hbefore byte hbyte)

theorem answerFrom_cons (h : 2 ≤ max ∧ max ≤ 256) {byte : UInt8}
    (hbyte : byte.toNat < cutoff max) (bytes : List UInt8) :
    answerFrom failure max (byte :: bytes) = .ok (byte.toNat % max + 1) bytes := by
  have hstop : ¬ decide (cutoff max ≤ byte.toNat) = true := by
    rw [decide_eq_true_iff]
    exact Nat.not_le.mpr hbyte
  rw [answerFrom_of_range failure h, List.dropWhile_cons, if_neg hstop]

/-- The loop ends at the first byte below the cutoff. -/
theorem repeats_drawTurn (h : 2 ≤ max ∧ max ≤ 256) (bytes : List UInt8) :
    Repeats (drawTurn (fillFront failure) max) bytes (answerFrom failure max bytes) := by
  induction bytes with
  | nil =>
      rw [answerFrom_of_range failure h]
      exact .failed (drawTurn_nil failure h)
  | cons byte bytes ih =>
      have hturn := drawTurn_cons failure h byte bytes
      by_cases hbyte : byte.toNat < cutoff max
      · rw [if_pos hbyte] at hturn
        rw [answerFrom_cons failure h hbyte]
        exact .given hturn
      · rw [if_neg hbyte] at hturn
        have hpassed := answerFrom_append failure h
          (List.forall_mem_singleton.mpr (Nat.not_lt.mp hbyte)) bytes
        rw [List.singleton_append] at hpassed
        rw [hpassed]
        exact .again hturn ih

theorem endsByTurns_answerFrom (bytes : List UInt8) :
    EndsByTurns (fillFront failure) max bytes (answerFrom failure max bytes) := by
  rw [EndsByTurns]
  split
  · next hrange =>
      rcases Nat.eq_or_lt_of_le hrange.1 with rfl | hlow
      · -- one turn with an empty buffer
        refine .given ?_
        rw [drawTurn_one]
        rfl
      · exact repeats_drawTurn failure ⟨hlow, hrange.2⟩ bytes
  · next hrange => rw [answerFrom, if_pos hrange]

variable {failure}

theorem answerFrom_value {bytes left : List UInt8} {value : Nat}
    (h : answerFrom failure max bytes = .ok value left) : 1 ≤ value ∧ value ≤ max := by
  rw [answerFrom] at h
  split at h
  · exact nomatch h
  · next hrange =>
      obtain ⟨hpos, -⟩ := Decidable.not_not.mp hrange
      split at h
      · cases h
        exact ⟨Nat.le_refl 1, hpos⟩
      · split at h
        · exact nomatch h
        · cases h
          exact ⟨Nat.le_add_left 1 _, Nat.mod_lt _ hpos⟩

theorem answerFrom_error {bytes left : List UInt8} {error : DiceError}
    (h : answerFrom failure max bytes = .error error left) :
    error = .outOfRange max ∨ error = failure := by
  rw [answerFrom] at h
  split at h
  · cases h
    exact .inl rfl
  · split at h
    · exact nomatch h
    · split at h
      · cases h
        exact .inr rfl
      · exact nomatch h

end Lists

theorem firstBelow_run (bound : Nat) (bytes : List UInt8) :
    (firstBelow bound).run bytes =
      match bytes.dropWhile fun byte => bound ≤ byte.toNat with
      | [] => .error (.entropy "unexpected situation") []
      | byte :: left => .ok byte left := by
  induction bytes with
  | nil => rfl
  | cons byte bytes ih =>
      rw [EStateM.run, firstBelow, List.dropWhile_cons]
      by_cases hbyte : byte.toNat < bound
      · rw [if_pos hbyte, if_neg (by simpa using hbyte)]
      · rw [if_neg hbyte, if_pos (by simpa using hbyte)]
        exact ih

/-- The search for a byte gives what the loop gives. -/
theorem bytes_draw_eq_answerFrom (max : Nat) (bytes : List UInt8) :
    (Source.bytes.draw max).run bytes =
      answerFrom (.entropy "unexpected situation") max bytes := by
  simp only [Source.bytes]
  rw [uniformInt, answerFrom]
  by_cases hrange : 1 ≤ max ∧ max ≤ 256
  · rw [dif_pos hrange, if_neg (not_not_intro hrange)]
    split
    · rfl
    · rw [EStateM.run_bind, firstBelow_run]
      cases bytes.dropWhile fun byte => cutoff max ≤ byte.toNat with
      | nil => rfl
      | cons byte left => rfl
  · rw [dif_neg hrange, if_pos hrange]
    rfl

/-! ## The cutoff -/

theorem isGreatest_cutoff {max : Nat} (hpos : 0 < max) :
    IsGreatest {n | max ∣ n ∧ n ≤ 256} (cutoff max) := by
  refine ⟨⟨Nat.dvd_mul_left max (256 / max), cutoff_le max⟩, ?_⟩
  rintro n ⟨⟨k, rfl⟩, hle⟩
  have hk : k ≤ 256 / max := (Nat.le_div_iff_mul_le hpos).mpr (by rwa [Nat.mul_comm])
  rw [cutoff, Nat.mul_comm max k]
  exact Nat.mul_le_mul_right max hk

/-- Taking turns on a list of bytes ends, and in one way only, which is how
the source of these bytes answers.  Requests out of range are refused, and 1
is given, with nothing read.  Any other value is made of the first byte below
the largest multiple of `max` up to 256; the bytes after it are left as they
are.  If there is no such byte all bytes are read and the filler fails. -/
theorem turns_end_at_first_below (failure : DiceError) (max : Nat) (bytes : List UInt8) :
    ∃ ending : EStateM.Result DiceError (List UInt8) Nat,
      (∀ other, EndsByTurns (fillFront failure) max bytes other ↔ other = ending) ∧
      (failure = .entropy "unexpected situation" →
        (Source.bytes.draw max).run bytes = ending) ∧
      (¬ (1 ≤ max ∧ max ≤ 256) → ending = .error (.outOfRange max) bytes) ∧
      (max = 1 → ending = .ok 1 bytes) ∧
      (2 ≤ max → max ≤ 256 → IsGreatest {n | max ∣ n ∧ n ≤ 256} (cutoff max) ∧
        (∀ before byte after, bytes = before ++ byte :: after →
          (∀ b ∈ before, cutoff max ≤ b.toNat) → byte.toNat < cutoff max →
            ending = .ok (byte.toNat % max + 1) after) ∧
        ((∀ b ∈ bytes, cutoff max ≤ b.toNat) → ending = .error failure [])) ∧
      (∀ value left, ending = .ok value left → 1 ≤ value ∧ value ≤ max) ∧
      ∀ left, ending = .error .overflow left → failure = .overflow := by
  refine ⟨answerFrom failure max bytes, ?_, ?_, ?_, ?_, ?_, ?_, ?_⟩
  · intro other
    constructor
    · intro hother
      exact hother.unique (endsByTurns_answerFrom failure bytes)
    · rintro rfl
      exact endsByTurns_answerFrom failure bytes
  · rintro rfl
    exact bytes_draw_eq_answerFrom max bytes
  · intro hrange
    rw [answerFrom, if_pos hrange]
  · rintro rfl
    rfl
  · intro hlow hhigh
    have hrange : 2 ≤ max ∧ max ≤ 256 := ⟨hlow, hhigh⟩
    refine ⟨isGreatest_cutoff (Nat.zero_lt_of_lt hlow), ?_, ?_⟩
    · rintro before byte after rfl hbefore hbyte
      rw [answerFrom_append failure hrange hbefore, answerFrom_cons failure hrange hbyte]
    · intro hall
      have hnone := answerFrom_append failure hrange hall []
      rw [List.append_nil] at hnone
      rw [hnone, answerFrom_of_range failure hrange]
      rfl
  · intro value left h
    exact answerFrom_value h
  · intro left h
    rcases answerFrom_error h with herror | herror
    · exact nomatch herror
    · exact herror.symm

/-- For six faces the bytes from 252 on are passed over.  Where all bytes are
too large the list comes to its end, and for 257 none is read. -/
theorem turns_end_at_first_below_d6 :
    EndsByTurns (fillFront .exhausted) 6 [255, 252, 5, 9] (.ok 6 [9]) ∧
    (Source.bytes.draw 6).run [255, 252, 5, 9] = .ok 6 [9] ∧
    EndsByTurns (fillFront .exhausted) 100 [200, 255] (.error .exhausted []) ∧
    EndsByTurns (fillFront .exhausted) 1 [200] (.ok 1 [200]) ∧
    EndsByTurns (fillFront .exhausted) 257 [3] (.error (.outOfRange 257) [3]) := by
  have hpassed : ∀ b ∈ ([255, 252] : List UInt8), cutoff 6 ≤ b.toNat :=
    List.forall_mem_cons.mpr ⟨by decide, List.forall_mem_singleton.mpr (by decide)⟩
  have hnever : ∀ b ∈ ([200, 255] : List UInt8), cutoff 100 ≤ b.toNat :=
    List.forall_mem_cons.mpr ⟨by decide, List.forall_mem_singleton.mpr (by decide)⟩
  refine ⟨?_, ?_, ?_, ?_, ?_⟩
  · obtain ⟨ending, hturns, -, -, -, hvalues, -⟩ :=
      turns_end_at_first_below .exhausted 6 [255, 252, 5, 9]
    have hfirst := (hvalues (by decide) (by decide)).2.1 [255, 252] 5 [9] rfl hpassed
      (by decide)
    exact (hturns _).mpr hfirst.symm
  · obtain ⟨ending, -, hdraw, -, -, hvalues, -⟩ :=
      turns_end_at_first_below (.entropy "unexpected situation") 6 [255, 252, 5, 9]
    have hfirst := (hvalues (by decide) (by decide)).2.1 [255, 252] 5 [9] rfl hpassed
      (by decide)
    exact (hdraw rfl).trans hfirst
  · obtain ⟨ending, hturns, -, -, -, hvalues, -⟩ :=
      turns_end_at_first_below .exhausted 100 [200, 255]
    have hnone := (hvalues (by decide) (by decide)).2.2 hnever
    exact (hturns _).mpr hnone.symm
  · obtain ⟨ending, hturns, -, -, hone, -⟩ := turns_end_at_first_below .exhausted 1 [200]
    exact (hturns _).mpr (hone rfl).symm
  · obtain ⟨ending, hturns, -, hrange, -⟩ := turns_end_at_first_below .exhausted 257 [3]
    exact (hturns _).mpr (hrange (by decide)).symm

end DiceRoller
