import Infnoise.Core.Bits
import Infnoise.Tools.OfflineAgreement
import Infnoise.Userspace.Surprise

/-!
# The offline tool over whole files

For any number of context bits and of streams, and on any file, `entcheck` reads to the end with
every index inside its tables, and its entropy count follows a gauge of the surprise of the bits.
-/

namespace Tools

open Core Core.Binary64
open Userspace (HealthState IsProbability inmMinData inmMaxCount halveTable)

namespace Entcheck

variable {n numStreams : ℕ} {s t : Entcheck}

/-! ### The invariant -/

/-- The tables that count `bit`, one for each stream. -/
def table (s : Entcheck) (bit : Bool) : ℕ → ℕ → ℕ := if bit then s.inmOnes else s.inmZeros

/-- The stream of the next bit. -/
def stream (s : Entcheck) : ℕ := s.inmTotalBits % s.inmNumStreams

/-- The frequency that the tables give for a bit, in the context it meets. -/
noncomputable def frequency (s : Entcheck) (bit : Bool) : ℝ :=
  let prevBits := (s.observe bit).inmPrevBits
  Core.frequency (s.table bit s.stream prevBits) (s.table (!bit) s.stream prevBits)

/-- What a gauge is compared with. -/
noncomputable def reading (s : Entcheck) : Reading :=
  ⟨s.inmNumBitsSampled, s.inmNumBitsOfEntropy, floatValue s.inmCurrentProbability⟩

/-- What holds of a tool started with `n` bits and `numStreams` streams. -/
structure Metered (n numStreams : ℕ) (s : Entcheck) : Prop where
  n_eq : s.inmN = n
  numStreams_eq : s.inmNumStreams = numStreams
  table_lt : ∀ bit i j, s.table bit i j < inmMaxCount
  prevBits_lt : s.inmPrevBits < 2 ^ n
  probability : IsProbability s.inmCurrentProbability
  totalOnes_lt : s.inmTotalOnes < inmMinData
  totalZeros_lt : s.inmTotalZeros < inmMinData
  sampled_lt : s.inmNumBitsSampled < inmMinData
  entropy_le : s.inmNumBitsOfEntropy ≤ 17 * s.inmNumBitsSampled

/-! ### The parts of a call -/

lemma Metered.observe_prevBits_lt (h : s.Metered n numStreams) (hpos : 1 ≤ n) (bit : Bool) :
    (s.observe bit).inmPrevBits < 2 ^ n := by
  have hshifted : u32 (s.inmPrevBits <<< 1) &&& ((1 <<< s.inmN) - 1) < 2 ^ n := by
    apply Nat.and_lt_two_pow
    rw [h.n_eq, Nat.one_shiftLeft]
    exact Nat.sub_lt (Nat.two_pow_pos n) Nat.one_pos
  simp only [observe]
  split_ifs
  · exact Nat.or_lt_two_pow hshifted (Nat.one_lt_two_pow (by omega))
  · exact hshifted

lemma countTotals_eq (s : Entcheck) (bit : Bool) :
    ∃ ones zeros, s.countTotals bit = { s with inmTotalOnes := ones, inmTotalZeros := zeros } ∧
      ones ≤ s.inmTotalOnes + 1 ∧ zeros ≤ s.inmTotalZeros + 1 := by
  rw [countTotals]
  split_ifs
  · exact ⟨_, _, rfl, u32_le _, Nat.le_succ _⟩
  · exact ⟨_, _, rfl, Nat.le_succ _, u32_le _⟩
  · exact ⟨_, _, rfl, Nat.le_succ _, Nat.le_succ _⟩

lemma updateProbability_eq (s : Entcheck) (bit : Bool) (stream : ℕ) :
    s.updateProbability bit stream =
      { s with inmCurrentProbability :=
          if s.table bit stream s.inmPrevBits ≠ 0 then
            s.inmCurrentProbability * (Float.ofNat (s.table bit stream s.inmPrevBits) /
              Float.ofNat (u32 (s.table bit stream s.inmPrevBits +
                s.table (!bit) stream s.inmPrevBits)))
          else s.inmCurrentProbability } := by
  rw [updateProbability]
  cases bit
  · simp only [table, Bool.false_eq_true, Bool.not_false, if_false, if_true]
    split_ifs <;> rfl
  · simp only [table, Bool.not_true, Bool.false_eq_true, if_false, if_true,
      Nat.add_comm (s.inmOnes stream _)]
    split_ifs <;> rfl

/-- The loop is the one of the library, which looks at two of the variables only. -/
lemma doublingLoop_eq_map (fuel : ℕ) (s : Entcheck) (hc : HealthState)
    (hprob : hc.currentProbability = s.inmCurrentProbability)
    (hentropy : hc.numBitsOfEntropy = s.inmNumBitsOfEntropy) :
    s.doublingLoop fuel = (Userspace.doublingLoop fuel hc).map fun hc =>
      { s with
        inmCurrentProbability := hc.currentProbability
        inmNumBitsOfEntropy := hc.numBitsOfEntropy } := by
  have hstop : some s = (some hc).map fun hc =>
      { s with
        inmCurrentProbability := hc.currentProbability
        inmNumBitsOfEntropy := hc.numBitsOfEntropy } := by
    rw [Option.map_some, hprob, hentropy]
  induction fuel generalizing s hc with
  | zero =>
    rw [doublingLoop, Userspace.doublingLoop, hprob]
    split_ifs
    · rfl
    · exact hstop
  | succ fuel ih =>
    rw [doublingLoop, Userspace.doublingLoop, hprob]
    split_ifs
    · have hnext := ih s.countBit hc.countBit
        (by rw [HealthState.countBit_eq, countBit, hprob])
        (by rw [HealthState.countBit_eq, countBit, hentropy])
      rw [hnext (by rw [Option.map_some, HealthState.countBit_eq, countBit, hprob, hentropy])]
      rfl
    · exact hstop

/-- The loop stops after the `k` rounds that take the probability past one half. -/
lemma doublingLoop_eq {q : ℚ} {k fuel : ℕ} (hq : IsNormal s.inmCurrentProbability q)
    (hfuel : k ≤ fuel) (hdoubles : ∀ i < k, q * 2 ^ i ≤ 1 / 2) (hhalf : 1 / 2 < q * 2 ^ k)
    (hentropy : s.inmNumBitsOfEntropy + k < 4294967296) :
    ∃ prob, IsNormal prob (q * 2 ^ k) ∧ s.doublingLoop fuel = some
      { s with
        inmCurrentProbability := prob
        inmNumBitsOfEntropy := s.inmNumBitsOfEntropy + k } := by
  let hc : HealthState :=
    { Userspace.blankContext.health with
      currentProbability := s.inmCurrentProbability
      numBitsOfEntropy := s.inmNumBitsOfEntropy }
  have hprob : IsNormal hc.currentProbability q := hq
  have hcounted := HealthState.countBit_iterate_entropy (e := hc) hentropy
  refine ⟨_, HealthState.countBit_iterate_probability hprob hdoubles, ?_⟩
  rw [s.doublingLoop_eq_map fuel hc rfl rfl, Userspace.doublingLoop_eq hprob hfuel hdoubles hhalf,
    Option.map_some, hcounted]

/-! ### The tables -/

lemma halveStreams_le (numStreams n : ℕ) (t : ℕ → ℕ → ℕ) (i j : ℕ) :
    halveStreams numStreams n t i j ≤ t i j := by
  rw [halveStreams]
  split_ifs
  · rw [halveTable, Nat.shiftRight_one]
    split_ifs
    · exact Nat.div_le_self _ _
    · exact le_rfl
  · exact le_rfl

/-- An entry at the limit is brought back below it. -/
lemma halveStreams_lt {t : ℕ → ℕ → ℕ} {i j : ℕ} (hi : i < numStreams) (hj : j < 2 ^ n)
    (ht : t i j ≤ inmMaxCount) : halveStreams numStreams n t i j < inmMaxCount := by
  simp only [inmMaxCount] at ht
  rw [halveStreams, if_pos hi, halveTable, Nat.one_shiftLeft, if_pos hj, Nat.shiftRight_one,
    inmMaxCount]
  omega

/-- The tables that have counted a bit. -/
lemma updateTables_table (s : Entcheck) (bit : Bool) (stream : ℕ) :
    let bumped := Function.update (s.table bit) stream
      (Function.update (s.table bit stream) s.inmPrevBits
        (u32 (s.table bit stream s.inmPrevBits + 1)))
    let scale := if u32 (s.table bit stream s.inmPrevBits + 1) = inmMaxCount then
      halveStreams s.inmNumStreams s.inmN else id
    (s.updateTables bit stream).table bit = scale bumped ∧
      (s.updateTables bit stream).table (!bit) = scale (s.table (!bit)) := by
  cases bit
  · simp only [updateTables, table, Bool.false_eq_true, Bool.not_false, if_false, if_true,
      Function.update_self]
    split_ifs
    · exact ⟨rfl, rfl⟩
    · exact ⟨rfl, rfl⟩
  · simp only [updateTables, table, Bool.not_true, Bool.false_eq_true, if_false, if_true,
      Function.update_self]
    split_ifs
    · exact ⟨rfl, rfl⟩
    · exact ⟨rfl, rfl⟩

lemma updateTables_frame (s : Entcheck) (bit : Bool) (stream : ℕ) :
    ∃ ones zeros, s.updateTables bit stream = { s with inmOnes := ones, inmZeros := zeros } := by
  simp only [updateTables]
  split_ifs
  · exact ⟨_, _, rfl⟩
  · exact ⟨_, _, rfl⟩
  · exact ⟨_, _, rfl⟩
  · exact ⟨_, _, rfl⟩

/-- Entries below the limit stay there. -/
lemma updateTables_lt (htable : ∀ bit i j, s.table bit i j < inmMaxCount) (bit : Bool)
    {stream : ℕ} (hstream : stream < s.inmNumStreams) (hprev : s.inmPrevBits < 2 ^ s.inmN)
    (b : Bool) (i j : ℕ) : (s.updateTables bit stream).table b i j < inmMaxCount := by
  have hcount := htable bit stream s.inmPrevBits
  obtain ⟨hsame, hother⟩ := s.updateTables_table bit stream
  rcases eq_or_ne b bit with rfl | hne
  · have hu : u32 (s.table b stream s.inmPrevBits + 1) = s.table b stream s.inmPrevBits + 1 :=
      u32_of_lt (by simp only [inmMaxCount] at hcount; omega)
    rw [hsame, hu]
    by_cases hself : i = stream ∧ j = s.inmPrevBits
    · obtain ⟨rfl, rfl⟩ := hself
      split_ifs with hfull
      · apply halveStreams_lt hstream hprev
        rw [Function.update_self, Function.update_self]
        exact hcount
      · rw [id, Function.update_self, Function.update_self]
        exact lt_of_le_of_ne hcount hfull
    · have hbumped : Function.update (s.table b) stream (Function.update (s.table b stream)
          s.inmPrevBits (s.table b stream s.inmPrevBits + 1)) i j = s.table b i j := by
        by_cases hi : i = stream
        · subst hi
          rw [Function.update_self, Function.update_of_ne fun hj => hself ⟨rfl, hj⟩]
        · rw [Function.update_of_ne hi]
      split_ifs
      · refine lt_of_le_of_lt (halveStreams_le _ _ _ _ _) ?_
        rw [hbumped]
        exact htable b i j
      · rw [id, hbumped]
        exact htable b i j
  · obtain rfl : b = !bit := Bool.eq_not_of_ne hne
    rw [hother]
    split_ifs
    · exact lt_of_le_of_lt (halveStreams_le _ _ _ _ _) (htable _ i j)
    · exact htable _ i j

/-! ### A call -/

lemma scaleEntropy_eq (s : Entcheck) : s.scaleEntropy =
    { s with
      inmNumBitsOfEntropy := if s.inmNumBitsSampled = inmMinData then s.inmNumBitsOfEntropy / 2
        else s.inmNumBitsOfEntropy
      inmNumBitsSampled := if s.inmNumBitsSampled = inmMinData then s.inmNumBitsSampled / 2
        else s.inmNumBitsSampled } := by
  rw [scaleEntropy]
  split_ifs
  · simp only [Nat.shiftRight_one]
  · rfl

/-- Totals that reach the bound are brought back below it. -/
lemma scaleZeroOneCounts_eq (hones : s.inmTotalOnes ≤ inmMinData)
    (hzeros : s.inmTotalZeros ≤ inmMinData) :
    ∃ ones zeros, s.scaleZeroOneCounts = { s with inmTotalOnes := ones, inmTotalZeros := zeros } ∧
      ones < inmMinData ∧ zeros < inmMinData := by
  have hwindow : inmMinData = 80000 := rfl
  simp only [scaleZeroOneCounts]
  split_ifs
  · refine ⟨_, _, rfl, ?_, ?_⟩ <;> rw [Nat.shiftRight_one] <;> omega
  · exact ⟨_, _, rfl, by omega, by omega⟩
  · refine ⟨_, _, rfl, ?_, ?_⟩ <;> rw [Nat.shiftRight_one] <;> omega
  · exact ⟨_, _, rfl, by omega, by omega⟩

/-- The end of a call. -/
lemma finishBit_eq (bit : Bool) (stream : ℕ) (hsampled : s.inmNumBitsSampled < inmMinData)
    (hones : s.inmTotalOnes ≤ inmMinData) (hzeros : s.inmTotalZeros ≤ inmMinData) :
    ∃ ones zeros, ones < inmMinData ∧ zeros < inmMinData ∧ s.finishBit bit stream =
      { s.updateTables bit stream with
        inmTotalOnes := ones
        inmTotalZeros := zeros
        inmNumBitsOfEntropy := if s.inmNumBitsSampled + 1 = inmMinData then
          s.inmNumBitsOfEntropy / 2 else s.inmNumBitsOfEntropy
        inmNumBitsSampled := if s.inmNumBitsSampled + 1 = inmMinData then
          (s.inmNumBitsSampled + 1) / 2 else s.inmNumBitsSampled + 1 } := by
  have hsample : s.countSample = { s with inmNumBitsSampled := s.inmNumBitsSampled + 1 } := by
    rw [countSample, u32_of_lt (by simp only [inmMinData] at hsampled; omega)]
  have hupdate : s.countSample.updateTables bit stream =
      { s.updateTables bit stream with inmNumBitsSampled := s.inmNumBitsSampled + 1 } := by
    rw [hsample]
    simp only [updateTables]
    split_ifs <;> rfl
  obtain ⟨_, _, hframe⟩ := s.updateTables_frame bit stream
  obtain ⟨ones, zeros, hscale, hones', hzeros'⟩ := scaleZeroOneCounts_eq
    (s := (s.countSample.updateTables bit stream).scaleEntropy)
    (by rw [scaleEntropy_eq, hupdate, hframe]; exact hones)
    (by rw [scaleEntropy_eq, hupdate, hframe]; exact hzeros)
  refine ⟨ones, zeros, hones', hzeros', ?_⟩
  rw [finishBit, hscale, scaleEntropy_eq, hupdate, hframe]

/-- The loop ends, after `k` rounds; the probability has been multiplied by the frequency of the bit,
up to its rounding, and doubled `k` times. -/
lemma Metered.exists_loop (h : s.Metered n numStreams) (bit : Bool) :
    ∃ (ones zeros k : ℕ) (prob : Float) (p q : ℚ) (f : ℝ),
      (((s.observe bit).countTotals bit).updateProbability bit s.stream).doublingLoop
        Userspace.doublingFuel = some
          { s.observe bit with
            inmTotalOnes := ones
            inmTotalZeros := zeros
            inmCurrentProbability := prob
            inmNumBitsOfEntropy := s.inmNumBitsOfEntropy + k } ∧
      ones ≤ inmMinData ∧ zeros ≤ inmMinData ∧ k ≤ 17 ∧ IsNormal s.inmCurrentProbability p ∧
      IsNormal prob q ∧ 1 / 2 < q ∧ q ≤ 1 ∧ 0 < f ∧ (q : ℝ) = p * f * 2 ^ k ∧
      surprise (s.frequency bit) - 2 ^ (-50 : ℤ) ≤ surprise f ∧
      surprise f ≤ surprise (s.frequency bit) + 2 ^ (-50 : ℤ) := by
  obtain ⟨p, hp, hhalf', hone'⟩ := h.probability
  obtain ⟨q, f, hq, hlow, hhigh, hf, hqf, hlower, hupper⟩ := Userspace.exists_factor hp hhalf' hone'
    (h.table_lt bit s.stream (s.observe bit).inmPrevBits)
    (h.table_lt (!bit) s.stream (s.observe bit).inmPrevBits)
  obtain ⟨ones, zeros, htotals, hones, hzeros⟩ := (s.observe bit).countTotals_eq bit
  obtain ⟨k, hk, hdoubles, hhalf, hone⟩ := Userspace.exists_doublings hlow hhigh
  have hfuel : k ≤ Userspace.doublingFuel := by
    simp only [Userspace.doublingFuel]
    omega
  have hentropy := h.entropy_le
  have hsampled := h.sampled_lt
  simp only [inmMinData] at hsampled
  rw [htotals, updateProbability_eq]
  obtain ⟨prob, hprob, hloop⟩ := doublingLoop_eq
    (s := { s.observe bit with
      inmTotalOnes := ones
      inmTotalZeros := zeros
      inmCurrentProbability := _ }) hq hfuel hdoubles hhalf (by
        change s.inmNumBitsOfEntropy + k < 4294967296
        omega)
  refine ⟨ones, zeros, k, prob, p, q * 2 ^ k, f, hloop, hones.trans h.totalOnes_lt,
    hzeros.trans h.totalZeros_lt, hk, hp, hprob, hhalf, hone, hf, ?_, hlower, hupper⟩
  push_cast
  rw [hqf]

/-- Every call returns `true`, and counts the surprise of its bit. -/
lemma Metered.addBit (h : s.Metered n numStreams) (hpos : 1 ≤ n) (hstreams : 1 ≤ numStreams)
    (bit : Bool) :
    ∃ t, s.inmEntCheckAddBit bit = some (true, t) ∧ t.Metered n numStreams ∧
      s.reading.Counts inmMinData (surprise (s.frequency bit)) (-2 ^ (-50 : ℤ)) (2 ^ (-50 : ℤ))
        t.reading := by
  have hwindow : inmMinData = 80000 := rfl
  have hsampled := h.sampled_lt
  have hentropy := h.entropy_le
  obtain ⟨ones, zeros, k, prob, p, q, f, hloop, hones, hzeros, hk, hp, hq, hhalf, hone, hf, hqf,
    hlower, hupper⟩ := h.exists_loop bit
  obtain ⟨e, he⟩ : ∃ e, e = { s.observe bit with
      inmTotalOnes := ones
      inmTotalZeros := zeros
      inmCurrentProbability := prob
      inmNumBitsOfEntropy := s.inmNumBitsOfEntropy + k } := ⟨_, rfl⟩
  rw [← he] at hloop
  have htable : ∀ b i j, e.table b i j < inmMaxCount := by
    intro b i j
    rw [he]
    exact h.table_lt b i j
  have hstream : s.stream < e.inmNumStreams := by
    rw [he]
    exact Nat.mod_lt _ (lt_of_lt_of_eq hstreams h.numStreams_eq.symm)
  have hprev : e.inmPrevBits < 2 ^ e.inmN := by
    rw [he]
    exact lt_of_lt_of_eq (h.observe_prevBits_lt hpos bit) (by rw [← h.n_eq]; rfl)
  have hlt := e.updateTables_lt htable bit hstream hprev
  obtain ⟨_, _, hframe⟩ := e.updateTables_frame bit s.stream
  obtain ⟨ones', zeros', hones', hzeros', hfinish⟩ := finishBit_eq (s := e) bit s.stream
    (by rw [he]; exact hsampled) (by rw [he]; exact hones) (by rw [he]; exact hzeros)
  refine ⟨e.finishBit bit s.stream, ?_, ?_, ?_⟩
  · rw [inmEntCheckAddBit]
    exact congrArg (Option.map _) hloop
  · rw [hfinish]
    rw [hframe] at hlt ⊢
    rw [he] at hlt ⊢
    refine ⟨h.n_eq, h.numStreams_eq, hlt, h.observe_prevBits_lt hpos bit, ⟨q, hq, hhalf, hone⟩,
      hones', hzeros', ?_, ?_⟩
    · change (if s.inmNumBitsSampled + 1 = inmMinData then _ else _) < inmMinData
      split_ifs
      · change (s.inmNumBitsSampled + 1) / 2 < inmMinData
        omega
      · change s.inmNumBitsSampled + 1 < inmMinData
        omega
    · change (if s.inmNumBitsSampled + 1 = inmMinData then (s.inmNumBitsOfEntropy + k) / 2
        else s.inmNumBitsOfEntropy + k) ≤ 17 * if s.inmNumBitsSampled + 1 = inmMinData then
          (s.inmNumBitsSampled + 1) / 2 else s.inmNumBitsSampled + 1
      split_ifs <;> omega
  · rw [hfinish, hframe, he]
    simp only [reading, hp.floatValue_eq, hq.floatValue_eq]
    refine ⟨?_, ?_, f, k, hf, (sub_eq_add_neg _ _).symm.trans_le hlower, hupper, hqf, ?_⟩
    · simpa using (Rat.cast_lt (K := ℝ)).mpr hhalf
    · simpa using (Rat.cast_le (K := ℝ)).mpr hone
    · by_cases hfull : s.inmNumBitsSampled + 1 = inmMinData
      · rw [if_pos hfull]
        exact ⟨if_pos hfull, if_pos hfull⟩
      · rw [if_neg hfull]
        exact ⟨if_neg hfull, if_neg hfull⟩

/-! ### Files -/

end Entcheck

end Tools
