/-
# Counting byte strings

A source that reads a byte string is random if the string is.  So what is
fair is a matter of counting: `ways P n` is the number of byte strings of
length `n` with a property `P`.  The properties counted here are of one
form: a roll succeeds on the string, and its value and the bytes left have
some property again (`Rolling.Meets`).  Thereby the count for a sequence of
rolls is reduced to counts for what comes after the first.

For a draw the first byte decides.  Below the cutoff it gives a value, and
each value comes from `256 / max` bytes; from the cutoff on it is passed
over, and the draw begins anew with one byte less:

    draw (n + 1) = 256 / max * (sum over the faces) n + (256 - cutoff) * draw n

No count is ever worked out.  `Lighter P Q` says that `P` holds of no more
strings than `Q`, at every length, and `draw_lighter` is what a draw makes
of it; equal counts are two inequalities.
-/
import Mathlib.SetTheory.Cardinal.Finite
import Mathlib.Data.Set.Finite.List
import Mathlib.Data.FinEnum
import Mathlib.Algebra.BigOperators.Fin
import Mathlib.Algebra.BigOperators.Intervals
import Mathlib.Algebra.Order.BigOperators.Group.Finset
import DiceRoller.Proofs.Rolling.Sequence
import DiceRoller.Source.Uniform

namespace DiceRoller

variable {σ α β : Type}

/-! ## Ways -/

/-- The number of byte strings of a length that have a property. -/
noncomputable def ways (P : List UInt8 → Prop) (n : Nat) : Nat :=
  Nat.card {bytes : List UInt8 // bytes.length = n ∧ P bytes}

/-- A string of `n + 1` bytes is a byte and a string of `n` bytes. -/
def consEquiv (P : List UInt8 → Prop) (n : Nat) :
    {bytes : List UInt8 // bytes.length = n + 1 ∧ P bytes} ≃
      (byte : UInt8) × {bytes : List UInt8 // bytes.length = n ∧ P (byte :: bytes)} where
  toFun
    | ⟨byte :: bytes, h⟩ => ⟨byte, bytes, Nat.succ.inj h.1, h.2⟩
  invFun string := ⟨string.1 :: string.2.1, congrArg (· + 1) string.2.2.1, string.2.2.2⟩
  left_inv
    | ⟨_ :: _, _⟩ => rfl
  right_inv _ := rfl

section Ways

variable {P Q : List UInt8 → Prop} {n : Nat}

theorem ways_congr (h : ∀ bytes, P bytes ↔ Q bytes) : ways P n = ways Q n := by
  have heq : P = Q := funext fun bytes => propext (h bytes)
  rw [heq]

theorem ways_eq_zero (h : ∀ bytes, bytes.length = n → ¬ P bytes) : ways P n = 0 := by
  have hempty : IsEmpty {bytes : List UInt8 // bytes.length = n ∧ P bytes} :=
    ⟨fun string => h string.1 string.2.1 string.2.2⟩
  exact Nat.card_of_isEmpty

theorem ways_pos (bytes : List UInt8) (hlength : bytes.length = n) (h : P bytes) :
    0 < ways P n := by
  have hfinite : Finite {bytes : List UInt8 // bytes.length = n ∧ P bytes} :=
    (List.finite_length_eq UInt8 n).subset fun bytes h => h.1
  have hsome : Nonempty {bytes : List UInt8 // bytes.length = n ∧ P bytes} :=
    ⟨⟨bytes, hlength, h⟩⟩
  exact Nat.card_pos

theorem ways_and_left (p : Prop) [Decidable p] :
    ways (fun bytes => p ∧ P bytes) n = if p then ways P n else 0 := by
  split
  · next hp => exact ways_congr fun bytes => and_iff_right hp
  · next hp => exact ways_eq_zero fun bytes _ h => hp h.1

theorem ways_succ :
    ways P (n + 1) = ∑ byte : UInt8, ways (fun bytes => P (byte :: bytes)) n := by
  have hfinite (byte : UInt8) :
      Finite {bytes : List UInt8 // bytes.length = n ∧ P (byte :: bytes)} :=
    (List.finite_length_eq UInt8 n).subset fun bytes h => h.1
  rw [ways, Nat.card_congr (consEquiv P n), Nat.card_sigma]
  rfl

end Ways

/-! ## Sums over bytes -/

theorem sum_bytes_toNat (f : Nat → Nat) :
    ∑ byte : UInt8, f byte.toNat = ∑ b ∈ Finset.range 256, f b := by
  rw [← Fin.sum_univ_eq_sum_range f 256]
  exact Equiv.sum_comp (FinEnum.equiv (α := UInt8)) fun b : Fin 256 => f b

theorem sum_range_mul_mod (q max : Nat) (f : Nat → Nat) :
    ∑ b ∈ Finset.range (q * max), f (b % max) = q * ∑ x ∈ Finset.range max, f x := by
  induction q with
  | zero => simp
  | succ q ih =>
      have hlast : ∑ x ∈ Finset.range max, f ((q * max + x) % max) =
          ∑ x ∈ Finset.range max, f x := by
        refine Finset.sum_congr rfl fun x hx => ?_
        rw [Nat.mul_comm, Nat.mul_add_mod, Nat.mod_eq_of_lt (Finset.mem_range.mp hx)]
      rw [Nat.succ_mul, Finset.sum_range_add, ih, hlast, Nat.succ_mul]

theorem sum_range_succ_eq (max : Nat) (f : Nat → Nat) :
    ∑ x ∈ Finset.range max, f (x + 1) = ∑ face ∈ Finset.Icc 1 max, f face := by
  rw [Finset.range_eq_Ico, Finset.sum_Ico_add', Nat.zero_add,
    Finset.Ico_add_one_right_eq_Icc]

/-- Bytes below the cutoff fall evenly on the faces. -/
theorem sum_bytes_cutoff (max : Nat) (f : Nat → Nat) (passed : Nat) :
    (∑ byte : UInt8, if byte.toNat < cutoff max then f (byte.toNat % max + 1) else passed) =
      256 / max * ∑ face ∈ Finset.Icc 1 max, f face + (256 - cutoff max) * passed := by
  have hsplit := Finset.sum_range_add
    (fun b => if b < cutoff max then f (b % max + 1) else passed) (cutoff max)
    (256 - cutoff max)
  have hbelow : ∑ b ∈ Finset.range (cutoff max),
      (if b < cutoff max then f (b % max + 1) else passed) =
        256 / max * ∑ face ∈ Finset.Icc 1 max, f face := by
    rw [← sum_range_succ_eq, ← sum_range_mul_mod, ← cutoff]
    exact Finset.sum_congr rfl fun b hb => if_pos (Finset.mem_range.mp hb)
  have habove : ∑ b ∈ Finset.range (256 - cutoff max),
      (if cutoff max + b < cutoff max then f ((cutoff max + b) % max + 1) else passed) =
        (256 - cutoff max) * passed := by
    have hpassed : ∀ b ∈ Finset.range (256 - cutoff max),
        (if cutoff max + b < cutoff max then f ((cutoff max + b) % max + 1) else passed) =
          passed := fun b _ => if_neg (Nat.not_lt.mpr (Nat.le_add_right _ b))
    rw [Finset.sum_congr rfl hpassed, Finset.sum_const, Finset.card_range, smul_eq_mul]
  rw [Nat.add_sub_of_le (cutoff_le max), hbelow, habove] at hsplit
  rw [← hsplit]
  exact sum_bytes_toNat fun b => if b < cutoff max then f (b % max + 1) else passed

/-! ## Rolls on byte strings -/

/-- The roll gives a value from the state; the value and the state left
have a property. -/
def Rolling.Meets (roll : Rolling σ α) (K : α → σ → Prop) (s : σ) : Prop :=
  ∃ a s', roll.run s = .ok a s' ∧ K a s'

namespace Rolling

@[simp] theorem meets_pure {a : α} {K : α → σ → Prop} :
    Meets (pure a : Rolling σ α) K = K a := by
  funext s
  refine propext ⟨?_, fun hK => ⟨a, s, rfl, hK⟩⟩
  rintro ⟨_, _, hrun, hK⟩
  cases hrun
  exact hK

/-- What comes next has to meet the rest. -/
theorem meets_bind {roll : Rolling σ α} {next : α → Rolling σ β} {K : β → σ → Prop} :
    Meets (roll >>= next) K = Meets roll fun a => Meets (next a) K := by
  funext s
  refine propext ⟨?_, ?_⟩
  · rintro ⟨b, s'', hrun, hK⟩
    obtain ⟨a, s', hroll, hnext⟩ := run_bind_eq_ok hrun
    exact ⟨a, s', hroll, b, s'', hnext, hK⟩
  · rintro ⟨a, s', hroll, b, s'', hnext, hK⟩
    refine ⟨b, s'', ?_, hK⟩
    rw [EStateM.run_bind, hroll]
    exact hnext

theorem meets_mapM_cons {roll : β → Rolling σ α} {b : β} {bs : List β} {v : α} {vs : List α}
    {P : σ → Prop} :
    Meets ((b :: bs).mapM roll) (fun values s => values = v :: vs ∧ P s) =
      Meets (roll b) fun value s =>
        value = v ∧ Meets (bs.mapM roll) (fun values s => values = vs ∧ P s) s := by
  rw [List.mapM_cons, meets_bind]
  congr
  funext value s
  rw [meets_bind]
  simp only [meets_pure, List.cons.injEq]
  refine propext ⟨?_, ?_⟩
  · rintro ⟨values, s', hrun, ⟨hvalue, hvalues⟩, hP⟩
    exact ⟨hvalue, values, s', hrun, hvalues, hP⟩
  · rintro ⟨hvalue, values, s', hrun, hvalues, hP⟩
    exact ⟨values, s', hrun, ⟨hvalue, hvalues⟩, hP⟩

end Rolling

open Rolling

section Draw

variable {max : Nat} {K K' : Nat → List UInt8 → Prop}

theorem draw_bytes (h : 2 ≤ max ∧ max ≤ 256) :
    Source.bytes.draw max =
      (firstBelow (cutoff max) >>= fun byte => pure (byte.toNat % max + 1)) := by
  obtain ⟨hlow, hhigh⟩ := h
  have hmax : 1 ≤ max ∧ max ≤ 256 := by omega
  have hne : max ≠ 1 := by omega
  simp only [Source.bytes, uniformInt]
  rw [dif_pos hmax, if_neg hne]

theorem draw_meets_nil (h : 2 ≤ max ∧ max ≤ 256) : ¬ Meets (Source.bytes.draw max) K [] := by
  rw [draw_bytes h, meets_bind]
  rintro ⟨byte, bytes, hrun, _⟩
  exact nomatch hrun

theorem draw_meets_cons (h : 2 ≤ max ∧ max ≤ 256) (byte : UInt8) (bytes : List UInt8) :
    Meets (Source.bytes.draw max) K (byte :: bytes) ↔
      if byte.toNat < cutoff max then K (byte.toNat % max + 1) bytes
      else Meets (Source.bytes.draw max) K bytes := by
  rw [draw_bytes h, meets_bind]
  simp only [meets_pure]
  simp only [Meets, EStateM.run, firstBelow]
  split
  · simp
  · rfl

theorem ways_draw_succ (h : 2 ≤ max ∧ max ≤ 256) (n : Nat) :
    ways (Meets (Source.bytes.draw max) K) (n + 1) =
      256 / max * ∑ face ∈ Finset.Icc 1 max, ways (K face) n +
        (256 - cutoff max) * ways (Meets (Source.bytes.draw max) K) n := by
  rw [ways_succ, ← sum_bytes_cutoff max (fun face => ways (K face) n)]
  refine Finset.sum_congr rfl fun byte _ => ?_
  rw [ways_congr (draw_meets_cons h byte)]
  split
  · rfl
  · rfl

/-! ## Comparing counts -/

/-- At every length no more byte strings have the first property than the
second. -/
def Lighter (P Q : List UInt8 → Prop) : Prop :=
  ∀ n, ways P n ≤ ways Q n

/-- What is lighter for all faces together is lighter for a draw. -/
theorem draw_lighter (h : 2 ≤ max ∧ max ≤ 256)
    (hK : ∀ n, ∑ face ∈ Finset.Icc 1 max, ways (K face) n ≤
      ∑ face ∈ Finset.Icc 1 max, ways (K' face) n) :
    Lighter (Meets (Source.bytes.draw max) K) (Meets (Source.bytes.draw max) K') := by
  intro n
  induction n with
  | zero =>
      have hzero : ways (Meets (Source.bytes.draw max) K) 0 = 0 := by
        refine ways_eq_zero fun bytes hlength => ?_
        rw [List.eq_nil_of_length_eq_zero hlength]
        exact draw_meets_nil h
      rw [hzero]
      exact Nat.zero_le _
  | succ n ih =>
      rw [ways_draw_succ h, ways_draw_succ h]
      exact Nat.add_le_add (Nat.mul_le_mul_left _ (hK n)) (Nat.mul_le_mul_left _ ih)

end Draw

end DiceRoller
