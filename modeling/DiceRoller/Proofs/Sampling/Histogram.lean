/-
# A sample is an exact histogram

A die is rolled again and again and its values are tallied.  Of a tally
three things can be asked.

| | |
| :-- | :-- |
| is it exact | the count of a face is how often the face was drawn (`tally_eq_map`) |
| is anything lost | all counts together are as many as the values that are faces (`total_tally`) |
| does it depend on the order | no, since how often a face was drawn does not |

All three follow from what one more value does to a tally.  A value that is
no face does nothing to it.

Values are tallied here when all of them are there.  They can as well be
counted as they come, in counters of 32 bits (`Source.countRolls`).  No
counter is ever larger than the number of values that were counted, and so
none of them goes round before as many have come as 32 bits can hold.
-/
import Mathlib.Data.List.Induction
import DiceRoller.Proofs.Rolling.Verdict

namespace DiceRoller

variable {σ α : Type}

/-! ## Tallies -/

theorem tally_concat (sides : Nat) (values : List Nat) (value : Nat) :
    tally sides (values ++ [value]) = addToTally (tally sides values) value :=
  List.foldl_concat ..

theorem getElem?_modify_face {β : Type} (raise : β → β) (counts : List β) (value i : Nat) :
    (if value = 0 then counts else counts.modify (value - 1) raise)[i]? =
      counts[i]?.map fun count => if value = i + 1 then raise count else count := by
  split
  · next hzero =>
      have hne : value ≠ i + 1 := by omega
      simp [hne]
  · next hpos =>
      have hface : value - 1 = i ↔ value = i + 1 := by omega
      simp only [List.getElem?_modify, hface, Option.map_eq_map]

theorem getElem?_addToTally (counts : List Nat) (value i : Nat) :
    (addToTally counts value)[i]? =
      counts[i]?.map fun count => if value = i + 1 then count + 1 else count :=
  getElem?_modify_face (· + 1) counts value i

theorem tally_eq_map (sides : Nat) (values : List Nat) :
    tally sides values = (List.range sides).map fun i => values.count (i + 1) := by
  induction values using List.reverseRecOn with
  | nil => simp [tally]
  | append_singleton values value ih =>
      refine List.ext_getElem? fun i => ?_
      rw [tally_concat, ih, getElem?_addToTally]
      by_cases hi : i < sides
      · simp [hi, List.count_append, List.count_singleton]
        split <;> rfl
      · simp [hi]

theorem total_modify_succ (counts : List Nat) (i : Nat) :
    total (counts.modify i (· + 1)) = total counts + if i < counts.length then 1 else 0 := by
  induction counts generalizing i with
  | nil => simp
  | cons count counts ih =>
      cases i with
      | zero => simp; omega
      | succ i => simp [ih]; omega

theorem total_addToTally (counts : List Nat) (value : Nat) :
    total (addToTally counts value) =
      total counts + if 1 ≤ value ∧ value ≤ counts.length then 1 else 0 := by
  unfold addToTally
  split
  · next hzero => simp [hzero]
  · next hpos =>
      have hface : value - 1 < counts.length ↔ 1 ≤ value ∧ value ≤ counts.length := by omega
      simp only [total_modify_succ, hface]

theorem total_tally (sides : Nat) (values : List Nat) :
    total (tally sides values) = values.countP fun value => 1 ≤ value ∧ value ≤ sides := by
  induction values using List.reverseRecOn with
  | nil => exact total_replicate sides 0
  | append_singleton values value ih =>
      rw [tally_concat, total_addToTally, ih, length_tally, List.countP_append]
      simp [List.countP_singleton]

/-! ## Counters of 32 bits -/

/-- One more value in counters of 32 bits, which go round. -/
def countUp (counters : List UInt32) (value : Nat) : List UInt32 :=
  if value = 0 then counters else counters.modify (value - 1) (· + 1)

/-- Rolls a fair die again and again and counts every value at once. -/
def Source.countRolls (source : Source σ) (sides : Nat) :
    (rolls : Nat) → List UInt32 → Rolling σ (List UInt32)
  | 0, counters => pure counters
  | rolls + 1, counters => do
    let value ← source.rollDie sides .fair
    countRolls source sides rolls (countUp counters value)

theorem getElem?_countUp (counters : List UInt32) (value i : Nat) :
    (countUp counters value)[i]? =
      counters[i]?.map fun counter => if value = i + 1 then counter + 1 else counter :=
  getElem?_modify_face (· + 1) counters value i

/-- Every counter has room for so many more. -/
def Room (n : Nat) (counters : List UInt32) : Prop :=
  ∀ counter ∈ counters, counter.toNat + n < UInt32.size

theorem room_replicate {n sides : Nat} (h : n < UInt32.size) :
    Room n (List.replicate sides 0) := by
  intro counter hcounter
  rw [List.eq_of_mem_replicate hcounter]
  simpa using h

theorem toNat_add_one {counter : UInt32} (h : counter.toNat + 1 < UInt32.size) :
    (counter + 1).toNat = counter.toNat + 1 := by
  rw [UInt32.toNat_add]
  exact Nat.mod_eq_of_lt h

namespace Room

variable {n : Nat} {counters : List UInt32}

theorem countUp (h : Room (n + 1) counters) (value : Nat) : Room n (countUp counters value) := by
  intro counter hcounter
  obtain ⟨i, hi⟩ := List.mem_iff_getElem?.mp hcounter
  rw [getElem?_countUp] at hi
  obtain ⟨before, hbefore, rfl⟩ := Option.map_eq_some_iff.mp hi
  have hroom := h before (List.mem_of_getElem? hbefore)
  split
  · rw [toNat_add_one (by omega)]
    omega
  · omega

theorem toNat_countUp (h : Room (n + 1) counters) (value : Nat) :
    (DiceRoller.countUp counters value).map UInt32.toNat =
      addToTally (counters.map UInt32.toNat) value := by
  refine List.ext_getElem? fun i => ?_
  rw [getElem?_addToTally, List.getElem?_map, List.getElem?_map, getElem?_countUp,
    Option.map_map, Option.map_map]
  refine Option.map_congr fun counter hcounter => ?_
  have hroom := h counter (List.mem_of_getElem? hcounter)
  simp only [Function.comp_apply]
  split
  · exact toNat_add_one (by omega)
  · rfl

theorem toNat_foldl {counters : List UInt32} (values : List Nat)
    (h : Room values.length counters) :
    (values.foldl DiceRoller.countUp counters).map UInt32.toNat =
      values.foldl addToTally (counters.map UInt32.toNat) := by
  induction values generalizing counters with
  | nil => rfl
  | cons value values ih =>
      rw [List.foldl_cons, List.foldl_cons, ih (h.countUp value), h.toNat_countUp]

end Room

theorem toNat_counters {sides : Nat} {values : List Nat} (h : values.length < UInt32.size) :
    (values.foldl countUp (List.replicate sides 0)).map UInt32.toNat = tally sides values := by
  rw [(room_replicate h).toNat_foldl, List.map_replicate]
  rfl

theorem countRolls_eq (source : Source σ) (sides rolls : Nat) (counters : List UInt32) :
    source.countRolls sides rolls counters =
      (fun values => values.foldl countUp counters) <$>
        Rolling.times rolls (source.rollDie sides .fair) := by
  induction rolls generalizing counters with
  | zero => rfl
  | succ rolls ih =>
      simp only [Source.countRolls, ih, Rolling.times_succ, map_bind, map_pure, List.foldl_cons]
      exact bind_congr fun value => map_eq_pure_bind _ _

theorem sample_eq_map (source : Source σ) (sides rolls : Nat) :
    source.sample sides rolls =
      (Distribution.mk sides rolls ∘ tally sides) <$>
        Rolling.times rolls (source.rollDie sides .fair) :=
  (map_eq_pure_bind _ _).symm

/-- Counted as they come, in 32 bits, the values give the same counts. -/
theorem countRolls_eq_sample (source : Source σ) (sides : Nat) {rolls : Nat}
    (h : rolls < UInt32.size) :
    List.map UInt32.toNat <$> source.countRolls sides rolls (List.replicate sides 0) =
      Distribution.counts <$> source.sample sides rolls := by
  rw [countRolls_eq, sample_eq_map, ← comp_map, ← comp_map]
  funext s
  show EStateM.run _ s = EStateM.run _ s
  rw [map_eq_pure_bind, map_eq_pure_bind, EStateM.run_bind, EStateM.run_bind]
  cases htimes : (Rolling.times rolls (source.rollDie sides .fair)).run s with
  | error error s' => rfl
  | ok values s' =>
      have hlength : values.length < UInt32.size := by rwa [length_of_times htimes]
      simp only [Function.comp_apply, toNat_counters hlength]

/-! ## What a sample draws -/

theorem rollDie_fair (source : Source σ) {sides : Nat} (h : Rollable sides) :
    source.rollDie sides .fair = source.draw sides := by
  rw [Source.rollDie, if_pos h]
  exact bind_pure (source.draw sides)

theorem times_draw_traced (source : Source σ) (max n : Nat) :
    Traced (Rolling.times n (source.logged.draw max))
      (fun draws values => draws = drawsOf max values ∧ values.length = n)
      (fun draws e => ∃ values, draws = drawsOf max values ++ [⟨max, .error e⟩] ∧
        values.length < n) := by
  induction n with
  | zero => exact Traced.pure ⟨rfl, rfl⟩
  | succ n ih =>
      have hpure (value : Nat) (more : List Nat) :
          Traced (pure (value :: more) : Rolling (Source.Logged σ) (List Nat))
            (fun draws values => draws = [] ∧ values = value :: more) (fun _ _ => False) :=
        Traced.pure ⟨rfl, rfl⟩
      rw [Rolling.times_succ]
      refine Traced.mono ((draw_traced source max).bind fun value => ih.bind (hpure value)) ?_ ?_
      · rintro draws values ⟨_, value, _, rfl, rfl, _, more, _, rfl, ⟨rfl, rfl⟩, rfl, rfl⟩
        exact ⟨by simp [drawsOf], rfl⟩
      · rintro draws e (rfl | ⟨_, value, _, rfl, rfl,
          ⟨values, rfl, hlength⟩ | ⟨_, _, _, _, _, hfalse⟩⟩)
        · exact ⟨[], rfl, Nat.succ_pos n⟩
        · exact ⟨value :: values, rfl, Nat.succ_lt_succ hlength⟩
        · exact hfalse.elim

theorem sample_of_refused (source : Source σ) {sides rolls : Nat} (hrolls : rolls ≠ 0)
    (hsides : ¬ Rollable sides) : source.sample sides rolls = throw (.invalidDie sides) := by
  obtain ⟨rolls, rfl⟩ := Nat.exists_eq_succ_of_ne_zero hrolls
  rw [sample_eq_map, Nat.succ_eq_add_one, Rolling.times_succ, Source.rollDie, if_neg hsides]
  rfl

/-- A sample draws one value for each roll, all with the sides of the die,
until one of them fails.  A die that cannot be rolled is refused, unless it
is not to be rolled at all. -/
theorem sample_traced (source : Source σ) (sides rolls : Nat) :
    Traced (source.logged.sample sides rolls)
      (fun draws sample => ∃ values, draws = drawsOf sides values ∧ values.length = rolls ∧
        sample = ⟨sides, rolls, tally sides values⟩)
      (fun draws e => draws = [] ∧ e = .invalidDie sides ∧ ¬ Rollable sides ∨
        ∃ values, draws = drawsOf sides values ++ [⟨sides, .error e⟩] ∧
          values.length < rolls) := by
  by_cases hrolls : rolls = 0
  · subst hrolls
    exact Traced.pure ⟨[], rfl, rfl, rfl⟩
  by_cases hsides : Rollable sides
  · have hpure (values : List Nat) :
        Traced (pure ⟨sides, rolls, tally sides values⟩ : Rolling (Source.Logged σ) Distribution)
          (fun draws sample => draws = [] ∧ sample = ⟨sides, rolls, tally sides values⟩)
          (fun _ _ => False) := Traced.pure ⟨rfl, rfl⟩
    rw [Source.sample, rollDie_fair source.logged hsides]
    refine Traced.mono ((times_draw_traced source sides rolls).bind hpure) ?_ ?_
    · rintro draws sample ⟨_, values, _, rfl, ⟨rfl, hlength⟩, rfl, rfl⟩
      exact ⟨values, List.append_nil _, hlength, rfl⟩
    · rintro draws e (hfailed | ⟨_, _, _, _, _, hfalse⟩)
      · exact .inr hfailed
      · exact hfalse.elim
  · rw [sample_of_refused source.logged hrolls hsides]
    exact Traced.throw (.inl ⟨rfl, rfl, hsides⟩)

/-! ## Samples -/

/-- The counts are the exact tally of the values. -/
structure ExactTally (sides : Nat) (values counts : List Nat) : Prop where
  length : counts.length = sides
  count : ∀ face, 1 ≤ face → face ≤ sides → counts[face - 1]? = some (values.count face)
  total : total counts = values.countP fun value => 1 ≤ value ∧ value ≤ sides

theorem tally_exact (sides : Nat) (values : List Nat) :
    ExactTally sides values (tally sides values) where
  length := length_tally sides values
  count := by
    intro face hpos hle
    have hlt : face - 1 < sides := by omega
    rw [tally_eq_map, List.getElem?_map, List.getElem?_range hlt, Option.map_some,
      Nat.sub_add_cancel hpos]
  total := total_tally sides values

section Runs

variable {source : Source σ} {sides rolls : Nat} {s s' : σ}

theorem sample_alike (source : Source σ) (sides rolls : Nat) (s : σ) :
    Alike (source.Along s) (source.logged.sample sides rolls) (source.sample sides rolls) :=
  (sample_planned sides rolls).alike (logged_answerAlike source s)

theorem sampled_of_ok {sample : Distribution}
    (hrun : (source.sample sides rolls).run s = .ok sample s') :
    ∃ values, (source.logged.sample sides rolls).drawn s = drawsOf sides values ∧
      source.Gave s (drawsOf sides values) s' ∧ values.length = rolls ∧
      sample = ⟨sides, rolls, tally sides values⟩ := by
  obtain ⟨⟨values, hdrawn, hlength, rfl⟩, hgave⟩ :=
    (sample_traced source sides rolls).of_ok (sample_alike source sides rolls s) hrun
  rw [hdrawn] at hgave
  exact ⟨values, hdrawn, hgave, hlength, rfl⟩

theorem failed_of_error (hsides : Rollable sides) {error : DiceError}
    (hrun : (source.sample sides rolls).run s = .error error s') :
    ∃ values, (source.logged.sample sides rolls).drawn s =
        drawsOf sides values ++ [⟨sides, .error error⟩] ∧
      source.Gave s (drawsOf sides values ++ [⟨sides, .error error⟩]) s' ∧
      values.length < rolls := by
  obtain ⟨hfailed, hgave⟩ :=
    (sample_traced source sides rolls).of_error (sample_alike source sides rolls s) hrun
  rcases hfailed with ⟨-, -, hrefused⟩ | ⟨values, hdrawn, hlength⟩
  · exact absurd hsides hrefused
  · rw [hdrawn] at hgave
    exact ⟨values, hdrawn, hgave, hlength⟩

theorem total_tally_of_honest (hsource : source.Honest) (hsides : Rollable sides)
    {values : List Nat} (hgave : source.Gave s (drawsOf sides values) s') :
    total (tally sides values) = values.length := by
  rw [total_tally, List.countP_eq_length]
  intro value hvalue
  obtain ⟨t, t', hdraw⟩ := hgave.of_mem (List.mem_map_of_mem hvalue)
  exact decide_eq_true (hsource sides hsides.pos hsides.le_256.2 t value t' hdraw)

theorem tally_perm {values values' : List Nat} (h : values.Perm values') :
    tally sides values = tally sides values' := by
  simp only [tally_eq_map, h.count_eq]

theorem perm_of_drawsOf {values values' : List Nat}
    (h : (drawsOf sides values).Perm (drawsOf sides values')) : values.Perm values' := by
  refine (List.map_perm_map_iff ?_).mp h
  intro value value' hdraw
  cases hdraw
  rfl

end Runs

/-- A sample of no rolls is a tally of nothing, whatever the die; otherwise a
die that cannot be rolled is refused at once.  A die that can is drawn as
often as was asked for, and the counts are the exact tally of what was drawn,
unless a draw fails: then that is the last one, and its error is returned.
Draws in another order give the same counts, and so do counters of 32
bits. -/
theorem sample_is_exact_histogram (source : Source σ) (sides rolls : Nat) (s : σ) :
    (rolls = 0 →
      (source.sample sides rolls).run s = .ok ⟨sides, 0, List.replicate sides 0⟩ s ∧
      (source.logged.sample sides rolls).drawn s = []) ∧
    (rolls ≠ 0 → ¬ (2 ≤ sides ∧ sides ≤ 100) →
      (source.sample sides rolls).run s = .error (.invalidDie sides) s ∧
      (source.logged.sample sides rolls).drawn s = []) ∧
    (2 ≤ sides ∧ sides ≤ 100 →
      (Answered ((source.logged.sample sides rolls).drawn s) →
        ∃ values counts s', (source.sample sides rolls).run s = .ok ⟨sides, rolls, counts⟩ s' ∧
          (source.logged.sample sides rolls).drawn s = drawsOf sides values ∧
          source.Gave s (drawsOf sides values) s' ∧ values.length = rolls ∧
          ExactTally sides values counts ∧ (source.Honest → total counts = rolls)) ∧
      ∀ before max error after,
        (source.logged.sample sides rolls).drawn s = before ++ ⟨max, .error error⟩ :: after →
          max = sides ∧ after = [] ∧
          ∃ values s', (source.sample sides rolls).run s = .error error s' ∧
            before = drawsOf sides values ∧ values.length < rolls ∧
            source.Gave s (before ++ [⟨max, .error error⟩]) s') ∧
    (∀ (τ : Type) (source' : Source τ) (t : τ) sample sample' s' t',
      (source.sample sides rolls).run s = .ok sample s' →
      (source'.sample sides rolls).run t = .ok sample' t' →
      ((source.logged.sample sides rolls).drawn s).Perm
        ((source'.logged.sample sides rolls).drawn t) → sample = sample') ∧
    (rolls < 2 ^ 32 →
      List.map UInt32.toNat <$> source.countRolls sides rolls (List.replicate sides 0) =
        Distribution.counts <$> source.sample sides rolls) := by
  refine ⟨?_, ?_, ?_, ?_, ?_⟩
  · rintro rfl
    exact ⟨rfl, rfl⟩
  · intro hrolls hsides
    rw [sample_of_refused source hrolls hsides, sample_of_refused source.logged hrolls hsides]
    exact ⟨rfl, rfl⟩
  · intro hsides
    refine ⟨?_, ?_⟩
    · intro hanswered
      cases hrun : (source.sample sides rolls).run s with
      | ok sample s' =>
          obtain ⟨values, hdrawn, hgave, hlength, rfl⟩ := sampled_of_ok hrun
          refine ⟨values, _, s', rfl, hdrawn, hgave, hlength, tally_exact sides values, ?_⟩
          intro hsource
          rw [total_tally_of_honest hsource hsides hgave, hlength]
      | error error s' =>
          obtain ⟨values, hdrawn, -⟩ := failed_of_error hsides hrun
          exact absurd hdrawn hanswered.ne_error
    · intro before max error after hdraws
      cases hrun : (source.sample sides rolls).run s with
      | ok sample s' =>
          obtain ⟨values, hdrawn, -⟩ := sampled_of_ok hrun
          exact absurd (hdrawn.symm.trans hdraws) (answered_drawsOf sides values).ne_error
      | error error' s' =>
          obtain ⟨values, hdrawn, hgave, hlength⟩ := failed_of_error hsides hrun
          obtain ⟨rfl, rfl, rfl, rfl⟩ :=
            (answered_drawsOf sides values).eq_of_append_error (hdrawn.symm.trans hdraws)
          exact ⟨rfl, rfl, values, s', rfl, rfl, hlength, hgave⟩
  · intro τ source' t sample sample' s' t' hrun hrun' hperm
    obtain ⟨values, hdrawn, -, -, rfl⟩ := sampled_of_ok hrun
    obtain ⟨values', hdrawn', -, -, rfl⟩ := sampled_of_ok hrun'
    rw [hdrawn, hdrawn'] at hperm
    rw [tally_perm (perm_of_drawsOf hperm)]
  · intro hrolls
    exact countRolls_eq_sample source sides hrolls

/-- Two sixes, a two and a value that a d6 does not have, in two orders; a
list that comes to its end; and a die with a single side, which is refused
unless it is not rolled at all. -/
theorem sample_is_exact_histogram_four_rolls :
    (∃ values counts s',
      (Source.listed.sample 6 4).run [6, 9, 2, 6] = .ok ⟨6, 4, counts⟩ s' ∧
      drawsOf 6 [6, 9, 2, 6] = drawsOf 6 values ∧ ExactTally 6 values counts) ∧
    (∀ sample s', (Source.listed.sample 6 4).run [9, 6, 6, 2] = .ok sample s' →
      ⟨6, 4, [0, 1, 0, 0, 0, 2]⟩ = sample) ∧
    (∃ values s', (Source.listed.sample 6 4).run [6, 9] = .error .exhausted s' ∧
      drawsOf 6 [6, 9] = drawsOf 6 values ∧ values.length < 4) ∧
    (Source.listed.sample 1 1).run [6] = .error (.invalidDie 1) [6] ∧
    (Source.listed.sample 1 0).run [6] = .ok ⟨1, 0, [0]⟩ [6] := by
  refine ⟨?_, ?_, ?_, ?_, ?_⟩
  · obtain ⟨-, -, hrollable, -⟩ := sample_is_exact_histogram .listed 6 4 [6, 9, 2, 6]
    obtain ⟨values, counts, s', hrun, hdrawn, -, -, hexact, -⟩ :=
      (hrollable (by decide)).1 (answered_drawsOf 6 [6, 9, 2, 6])
    exact ⟨values, counts, s', hrun, hdrawn, hexact⟩
  · obtain ⟨-, -, -, hperm, -⟩ := sample_is_exact_histogram .listed 6 4 [6, 9, 2, 6]
    have horder : (drawsOf 6 [6, 9, 2, 6]).Perm (drawsOf 6 [9, 6, 6, 2]) :=
      List.Perm.map _ (by decide)
    intro sample s' hrun
    exact hperm _ .listed [9, 6, 6, 2] _ sample [] s' rfl hrun horder
  · obtain ⟨-, -, hrollable, -⟩ := sample_is_exact_histogram .listed 6 4 [6, 9]
    obtain ⟨-, -, values, s', hrun, hdrawn, hlength, -⟩ :=
      (hrollable (by decide)).2 (drawsOf 6 [6, 9]) 6 .exhausted [] rfl
    exact ⟨values, s', hrun, hdrawn, hlength⟩
  · exact ((sample_is_exact_histogram .listed 1 1 [6]).2.1 (by decide) (by decide)).1
  · exact ((sample_is_exact_histogram .listed 1 0 [6]).1 rfl).1

end DiceRoller
