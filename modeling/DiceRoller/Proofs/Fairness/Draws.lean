/-
# Draws in a row

Draws are made one after the other from the bytes of a string, each from
where the one before it stopped.  Where that is depends on the bytes, and
different bounds pass over different bytes.  Still no list of values is
favoured: of the byte strings of a length as many give one list of values
as another (`draws_jointly_uniform`).

The induction goes from the last draw to the first.  What the later draws
are to give, and what is to become of the bytes they leave, is a property
of the bytes that are left for them, and this is all that a draw has to
know of them.

| bound | values | bytes |
| :-- | :-- | :-- |
| 1 | no choice | none, so the property stays as it is |
| 2 to 256 | one face is the right one, and all faces are alike | some |

Equal counts alone would be kept by draws that never succeed.  So it is
shown as well that every list of values comes up, as soon as there is a
byte for each draw that needs one.
-/
import DiceRoller.Proofs.Fairness.Weights

namespace DiceRoller

open Rolling

variable {σ : Type}

/-- Draws one value for each bound. -/
def Source.drawEach (source : Source σ) (bounds : List Nat) : Rolling σ (List Nat) :=
  bounds.mapM source.draw

/-! ## One draw -/

/-- What is lighter after a draw is lighter before it, whichever of its
faces are asked for. -/
theorem draw_face_lighter {max v w : Nat} {P Q : List UInt8 → Prop} (h : 1 ≤ max ∧ max ≤ 256)
    (hv : v ∈ Finset.Icc 1 max) (hw : w ∈ Finset.Icc 1 max) (hPQ : Lighter P Q) :
    Lighter (Meets (Source.bytes.draw max) fun value left => value = v ∧ P left)
      (Meets (Source.bytes.draw max) fun value left => value = w ∧ Q left) := by
  rcases Nat.eq_or_lt_of_le h.1 with rfl | hlow
  · -- nothing is read, and both faces are 1
    rw [Finset.Icc_self, Finset.mem_singleton] at hv hw
    subst hv hw
    have hone : Source.bytes.draw 1 = pure 1 := rfl
    rw [hone, meets_pure, meets_pure]
    simpa only [true_and] using hPQ
  · refine draw_lighter ⟨hlow, h.2⟩ fun n => ?_
    rw [sum_ways_face, sum_ways_face, if_pos hv, if_pos hw]
    exact hPQ n

theorem draw_reaches {max v : Nat} (h : 2 ≤ max ∧ max ≤ 256) (hv : v ∈ Finset.Icc 1 max) :
    ∃ byte : UInt8, ∀ {K : Nat → List UInt8 → Prop} {left : List UInt8}, K v left →
      Meets (Source.bytes.draw max) K (byte :: left) := by
  obtain ⟨hlow, hhigh⟩ := Finset.mem_Icc.mp hv
  have hbyte : (UInt8.ofNat (v - 1)).toNat = v - 1 := by
    rw [UInt8.toNat_ofNat']
    omega
  have hcutoff : max ≤ cutoff max := Nat.le_mul_of_pos_left max (Nat.div_pos h.2 (by omega))
  refine ⟨UInt8.ofNat (v - 1), fun {K left} hK => ?_⟩
  rw [draw_meets_cons h, hbyte, if_pos (by omega), Nat.mod_eq_of_lt (by omega),
    Nat.sub_add_cancel hlow]
  exact hK

/-! ## Draws one after the other -/

theorem drawEach_lighter {bounds vs ws : List Nat} {P Q : List UInt8 → Prop}
    (hbounds : ∀ max ∈ bounds, 1 ≤ max ∧ max ≤ 256) (hvs : Faces bounds vs)
    (hws : Faces bounds ws) (hPQ : Lighter P Q) :
    Lighter (Meets (Source.bytes.drawEach bounds) fun values left => values = vs ∧ P left)
      (Meets (Source.bytes.drawEach bounds) fun values left => values = ws ∧ Q left) := by
  induction hvs generalizing ws with
  | nil =>
      cases hws
      simp only [Source.drawEach, List.mapM_nil, meets_pure, true_and]
      exact hPQ
  | cons hv _ ih =>
      cases hws with
      | cons hw hws =>
          obtain ⟨hmax, hbounds⟩ := List.forall_mem_cons.mp hbounds
          rw [Source.drawEach, meets_mapM_cons, meets_mapM_cons]
          exact draw_face_lighter hmax hv hw (ih hbounds hws)

theorem drawEach_reaches {bounds vs : List Nat} (hbounds : ∀ max ∈ bounds, 1 ≤ max ∧ max ≤ 256)
    (hvs : Faces bounds vs) :
    ∃ bytes : List UInt8, bytes.length = (bounds.filter (1 < ·)).length ∧ ∀ left,
      Meets (Source.bytes.drawEach bounds) (fun values rest => values = vs ∧ rest = left)
        (bytes ++ left) := by
  induction hvs with
  | nil =>
      refine ⟨[], rfl, fun left => ?_⟩
      simp only [Source.drawEach, List.mapM_nil, meets_pure]
      exact ⟨trivial, rfl⟩
  | @cons max v bounds vs hv _ ih =>
      obtain ⟨hmax, hbounds⟩ := List.forall_mem_cons.mp hbounds
      obtain ⟨bytes, hlength, hmeets⟩ := ih hbounds
      rcases Nat.eq_or_lt_of_le hmax.1 with rfl | hlow
      · rw [Finset.Icc_self, Finset.mem_singleton] at hv
        subst hv
        refine ⟨bytes, hlength, fun left => ?_⟩
        rw [Source.drawEach, meets_mapM_cons]
        exact ⟨1, bytes ++ left, rfl, rfl, hmeets left⟩
      · obtain ⟨byte, hbyte⟩ := draw_reaches ⟨hlow, hmax.2⟩ hv
        refine ⟨byte :: bytes, ?_, fun left => ?_⟩
        · rw [List.filter_cons, if_pos (decide_eq_true hlow), List.length_cons, hlength,
            List.length_cons]
        · rw [Source.drawEach, meets_mapM_cons]
          exact hbyte ⟨rfl, hmeets left⟩

/-- Draws in a row favour no values.  Of the byte strings of a length as many
give one list of values as another, also if something is asked of the bytes
that are left.  And every list of values comes up, once there is a byte for
each draw that needs one. -/
theorem draws_jointly_uniform {bounds vs ws : List Nat}
    (hbounds : ∀ max ∈ bounds, 1 ≤ max ∧ max ≤ 256) (hvs : Faces bounds vs)
    (hws : Faces bounds ws) (n : Nat) :
    ways (Meets (Source.bytes.drawEach bounds) fun values _ => values = vs) n =
        ways (Meets (Source.bytes.drawEach bounds) fun values _ => values = ws) n ∧
      (∀ P : List UInt8 → Prop,
        ways (Meets (Source.bytes.drawEach bounds) fun values left => values = vs ∧ P left) n =
          ways (Meets (Source.bytes.drawEach bounds) fun values left => values = ws ∧ P left) n) ∧
      ((bounds.filter (1 < ·)).length ≤ n →
        0 < ways (Meets (Source.bytes.drawEach bounds) fun values _ => values = vs) n) := by
  have hequal (P : List UInt8 → Prop) :
      ways (Meets (Source.bytes.drawEach bounds) fun values left => values = vs ∧ P left) n =
        ways (Meets (Source.bytes.drawEach bounds) fun values left => values = ws ∧ P left) n := by
    have hsame : Lighter P P := fun n => Nat.le_refl _
    exact Nat.le_antisymm (drawEach_lighter hbounds hvs hws hsame n)
      (drawEach_lighter hbounds hws hvs hsame n)
  refine ⟨?_, hequal, ?_⟩
  · simpa only [and_true] using hequal fun _ => True
  · intro hlength
    obtain ⟨bytes, hbytes, hmeets⟩ := drawEach_reaches hbounds hvs
    -- what is left over is never read
    refine ways_pos (bytes ++ List.replicate (n - bytes.length) 0) ?_ ?_
    · rw [List.length_append, List.length_replicate]
      omega
    · obtain ⟨values, left, hrun, hvalues, -⟩ := hmeets (List.replicate (n - bytes.length) 0)
      exact ⟨values, left, hrun, hvalues⟩

/-- A six, the only value, a byte and a number up to 200: three draws need a
byte, and some bytes are passed over. -/
theorem draws_jointly_uniform_mixed :
    ways (Meets (Source.bytes.drawEach [6, 1, 256, 200])
          fun values _ => values = [1, 1, 256, 7]) 5 =
        ways (Meets (Source.bytes.drawEach [6, 1, 256, 200])
          fun values _ => values = [6, 1, 1, 200]) 5 ∧
      0 < ways (Meets (Source.bytes.drawEach [6, 1, 256, 200])
        fun values _ => values = [1, 1, 256, 7]) 5 := by
  have hbounds : ∀ max ∈ [6, 1, 256, 200], 1 ≤ max ∧ max ≤ 256 := by decide
  have hvs : Faces [6, 1, 256, 200] [1, 1, 256, 7] := by decide
  have hws : Faces [6, 1, 256, 200] [6, 1, 1, 200] := by decide
  obtain ⟨hequal, -, hpos⟩ := draws_jointly_uniform hbounds hvs hws 5
  exact ⟨hequal, hpos (by decide)⟩

end DiceRoller
