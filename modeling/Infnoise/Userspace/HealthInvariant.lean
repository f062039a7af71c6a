import Infnoise.Core.Binary64
import Infnoise.Core.Machine
import Infnoise.Core.Tables
import Infnoise.Userspace.Health

/-!
# The invariant of the userspace health checker

As in the kernel, every call keeps the table entries below `INM_MAX_COUNT` and the probability
between one half and one, here as a normal `double`. An observed frequency is at least `2 ^ -16`,
so the doubling loop ends after at most 17 rounds.
-/

namespace Userspace

open Core Core.Binary64
open Kernel (selectBit)

/-- The table that counts `bit` in the phase `even`. -/
def HealthState.table (hc : HealthState) : Bool → Bool → ℕ → ℕ
  | true, true => hc.onesEven
  | true, false => hc.zerosEven
  | false, true => hc.onesOdd
  | false, false => hc.zerosOdd

/-- A probability between one half and one. -/
def IsProbability (x : Float) : Prop := ∃ q, IsNormal x q ∧ 1 / 2 < q ∧ q ≤ 1

/-- What holds of a checker started with `N = 14` at every call boundary. -/
structure HealthState.Inv (hc : HealthState) : Prop where
  n_eq : hc.n = predictionBits
  table_lt : ∀ even bit i, hc.table even bit i < inmMaxCount
  prevBits_lt : hc.prevBits < 16384
  probability : IsProbability hc.currentProbability

/-- A checker whose probability may have fallen to `2 ^ -17`, as it is inside a call. -/
structure HealthState.Entered (hc : HealthState) : Prop where
  n_eq : hc.n = predictionBits
  table_lt : ∀ even bit i, hc.table even bit i < inmMaxCount
  prevBits_lt : hc.prevBits < 16384
  probability : ∃ q, IsNormal hc.currentProbability q ∧ 2 ^ (-17 : ℤ) ≤ q ∧ q ≤ 1

lemma inmHealthCheckStart_inv (log : Float → Float) (hc : HealthState) (k : Float)
    (debug allocated : Bool) :
    (inmHealthCheckStart log hc predictionBits k debug allocated).2.Inv where
  n_eq := rfl
  table_lt even bit i := by
    cases even <;> cases bit <;> exact Nat.zero_lt_succ _
  prevBits_lt := by
    change 0 < 16384
    norm_num
  probability := ⟨1, isNormal_one, by norm_num, le_rfl⟩

/-! ### The start of a call -/

/-- The context is the previous one, shifted, with the previous bit at its end. -/
lemma HealthState.observe_prevBits {hc : HealthState} (hn : hc.n = predictionBits)
    (evenBit oddBit even : Bool) :
    (hc.observe evenBit oddBit even).prevBits = (2 * hc.prevBits + hc.prevBit.toNat) % 16384 := by
  have hshifted : u32 (hc.prevBits <<< 1) &&& ((1 <<< hc.n) - 1)
      = (hc.prevBits % 8192) <<< 1 := by
    rw [hn, show (1 <<< predictionBits) - 1 = 2 ^ 14 - 1 from rfl, Nat.and_two_pow_sub_one_eq_mod]
    simp only [u32, Nat.shiftLeft_eq]
    omega
  simp only [observe, hshifted]
  cases hc.prevBit
  · simp only [Bool.false_eq_true, if_false, Bool.toNat_false, Nat.shiftLeft_eq]
    omega
  · rw [if_pos rfl, ← Nat.shiftLeft_add_eq_or_of_lt (by norm_num), Nat.shiftLeft_eq]
    simp only [Bool.toNat_true]
    omega

lemma HealthState.observe_inv {hc : HealthState} (hinv : hc.Inv) (evenBit oddBit even : Bool) :
    (hc.observe evenBit oddBit even).Inv where
  n_eq := hinv.n_eq
  table_lt e b i := by
    have := hinv.table_lt e b i
    cases e <;> cases b <;> exact this
  prevBits_lt := by
    rw [observe_prevBits hinv.n_eq]
    exact Nat.mod_lt _ (by norm_num)
  probability := hinv.probability

/-- The stuck-at check touches the totals and the run lengths only. -/
lemma HealthState.checkStuck_eq (hc : HealthState) (bit : Bool) :
    ∃ ones zeros sOnes sZeros, (hc.checkStuck bit).2 =
      { hc with
        totalOnes := ones, totalZeros := zeros
        numSequentialOnes := sOnes, numSequentialZeros := sZeros } := by
  simp only [checkStuck]
  split_ifs <;> exact ⟨_, _, _, _, rfl⟩

lemma HealthState.checkStuck_inv {hc : HealthState} (hinv : hc.Inv) (bit : Bool) :
    (hc.checkStuck bit).2.Inv := by
  obtain ⟨_, _, _, _, heq⟩ := hc.checkStuck_eq bit
  rw [heq]
  exact
    { n_eq := hinv.n_eq
      table_lt := fun e b i => by
        have := hinv.table_lt e b i
        cases e <;> cases b <;> exact this
      prevBits_lt := hinv.prevBits_lt
      probability := hinv.probability }

/-! ### The probability -/

/-- The count of the bit observed, and of the other bit, in the context. -/
lemma HealthState.updateProbability_eq (hc : HealthState) (bit even : Bool) :
    hc.updateProbability bit even =
      { hc with currentProbability :=
          if hc.table even bit hc.prevBits ≠ 0 then
            hc.currentProbability * (Float.ofNat (hc.table even bit hc.prevBits) /
              Float.ofNat (u32 (hc.table even bit hc.prevBits + hc.table even (!bit) hc.prevBits)))
          else hc.currentProbability } := by
  cases bit <;> cases even <;>
    simp only [updateProbability, table, Bool.not_true, Bool.not_false, if_true,
      Bool.false_eq_true, if_false, Nat.add_comm (hc.onesEven _), Nat.add_comm (hc.onesOdd _)] <;>
    split_ifs <;> rfl

/-- The frequency of an observed bit, from two table entries below the bound. -/
lemma isNormal_frequency {c o : ℕ} (hc : 0 < c) (hc' : c < inmMaxCount) (ho : o < inmMaxCount) :
    ∃ f, IsNormal (Float.ofNat c / Float.ofNat (c + o)) f ∧ 2 ^ (-16 : ℤ) ≤ f ∧ f ≤ 1 := by
  simp only [inmMaxCount] at hc' ho
  have hpos : (0 : ℚ) < (c + o : ℕ) := Nat.cast_pos.mpr (by omega)
  have hlo : IsNormal _ (2 ^ (-68 + 52 : ℤ)) := isNormal_pow (by norm_num) (by norm_num) rfl
  apply (isNormal_ofNat hc (by omega)).div (isNormal_ofNat (by omega) (by omega)) hlo isNormal_one
  · rw [le_div_iff₀ hpos]
    have hle : c + o ≤ c * 65536 := by omega
    have hle' : ((c + o : ℕ) : ℚ) ≤ c * 65536 := by exact_mod_cast hle
    norm_num
    push_cast at hle'
    linarith
  · rw [div_le_one hpos]
    exact_mod_cast Nat.le_add_right c o
  · exact zpow_le_zpow_right₀ (by norm_num) (by norm_num)

/-- A multiplication by a frequency takes a probability down to `2 ^ -17` at most. -/
lemma HealthState.updateProbability_low {hc : HealthState} (bit even : Bool)
    (hcount : hc.table even bit hc.prevBits < inmMaxCount)
    (hother : hc.table even (!bit) hc.prevBits < inmMaxCount)
    (hprob : IsProbability hc.currentProbability) :
    ∃ q, IsNormal (hc.updateProbability bit even).currentProbability q ∧
      2 ^ (-17 : ℤ) ≤ q ∧ q ≤ 1 := by
  obtain ⟨p, hp, hhalf, hone⟩ := hprob
  rw [hc.updateProbability_eq]
  dsimp only
  split_ifs with hpos
  · have hsum : u32 (hc.table even bit hc.prevBits + hc.table even (!bit) hc.prevBits)
        = hc.table even bit hc.prevBits + hc.table even (!bit) hc.prevBits :=
      u32_of_lt (by simp only [inmMaxCount] at hcount hother; omega)
    obtain ⟨f, hf, hlow, hhigh⟩ := isNormal_frequency (Nat.pos_of_ne_zero hpos) hcount hother
    have hlo : IsNormal _ (2 ^ (-69 + 52 : ℤ)) := isNormal_pow (by norm_num) (by norm_num) rfl
    rw [hsum]
    apply hp.mul hf hlo isNormal_one
    · calc (2 : ℚ) ^ (-69 + 52 : ℤ) = 1 / 2 * 2 ^ (-16 : ℤ) := by norm_num
        _ ≤ p * f := mul_le_mul hhalf.le hlow (by positivity) (by linarith)
    · exact mul_le_one₀ hone (le_trans (by positivity) hlow) hhigh
  · exact ⟨p, hp, le_trans (by norm_num) hhalf.le, hone⟩

lemma HealthState.updateProbability_entered {hc : HealthState} (hinv : hc.Inv) (bit even : Bool) :
    (hc.updateProbability bit even).Entered := by
  have hlow := updateProbability_low bit even (hinv.table_lt even bit _)
    (hinv.table_lt even (!bit) _) hinv.probability
  rw [hc.updateProbability_eq] at hlow ⊢
  refine ⟨hinv.n_eq, ?_, hinv.prevBits_lt, hlow⟩
  intro e b i
  have := hinv.table_lt e b i
  cases e <;> cases b <;> exact this

/-! ### The doubling loop -/

lemma HealthState.countBit_eq (hc : HealthState) :
    hc.countBit = { hc with
      currentProbability := hc.currentProbability * 2.0
      numBitsOfEntropy := u32 (hc.numBitsOfEntropy + 1)
      entropyLevel := hc.countBit.entropyLevel } := by
  rw [countBit]
  split_ifs <;> rfl

lemma HealthState.countBit_iterate (hc : HealthState) (k : ℕ) :
    (HealthState.countBit^[k] hc) =
      { hc with
        currentProbability := (HealthState.countBit^[k] hc).currentProbability
        numBitsOfEntropy := (HealthState.countBit^[k] hc).numBitsOfEntropy
        entropyLevel := (HealthState.countBit^[k] hc).entropyLevel } := by
  induction k with
  | zero => rfl
  | succ k ih => rw [Function.iterate_succ_apply', countBit_eq, ih]

/-- The loop makes some number of rounds. -/
lemma doublingLoop_iterate {fuel : ℕ} {hc hc' : HealthState}
    (hloop : doublingLoop fuel hc = some hc') : ∃ k, hc' = HealthState.countBit^[k] hc := by
  induction fuel generalizing hc with
  | zero =>
    rw [doublingLoop] at hloop
    split at hloop
    · cases hloop
    · exact ⟨0, (Option.some.inj hloop).symm⟩
  | succ fuel ih =>
    rw [doublingLoop] at hloop
    split at hloop
    · obtain ⟨k, hk⟩ := ih hloop
      exact ⟨k + 1, hk⟩
    · exact ⟨0, (Option.some.inj hloop).symm⟩

/-- As long as the loop condition held in every earlier round, `k` rounds multiply the probability
by `2 ^ k`. -/
lemma HealthState.countBit_iterate_probability {hc : HealthState} {q : ℚ} {k : ℕ}
    (hq : IsNormal hc.currentProbability q) (hlo : ∀ i < k, q * 2 ^ i ≤ 1 / 2) :
    IsNormal (HealthState.countBit^[k] hc).currentProbability (q * 2 ^ k) := by
  induction k with
  | zero => simpa using hq
  | succ k ih =>
    have hk := ih fun i hi => hlo i (by omega)
    rw [Function.iterate_succ_apply', countBit_eq, pow_succ, ← mul_assoc]
    exact hk.double ((hlo k (Nat.lt_succ_self k)).trans (by norm_num))

/-- A probability of at least `2 ^ -17` passes one half within 17 doublings. -/
lemma exists_doublings {q : ℚ} (hq : 2 ^ (-17 : ℤ) ≤ q) (hq' : q ≤ 1) :
    ∃ k ≤ 17, (∀ i < k, q * 2 ^ i ≤ 1 / 2) ∧ 1 / 2 < q * 2 ^ k ∧ q * 2 ^ k ≤ 1 := by
  have h17 : 1 / 2 < q * 2 ^ 17 := by
    norm_num at hq ⊢
    linarith
  have hex : ∃ k, 1 / 2 < q * 2 ^ k := ⟨17, h17⟩
  have hmin : ∀ i < Nat.find hex, q * 2 ^ i ≤ 1 / 2 := fun i hi =>
    not_lt.mp (Nat.find_min hex hi)
  refine ⟨Nat.find hex, Nat.find_min' hex h17, hmin, Nat.find_spec hex, ?_⟩
  rcases hk : Nat.find hex with _ | k
  · simpa using hq'
  · have := hmin k (by omega)
    rw [pow_succ, ← mul_assoc]
    linarith

/-- The loop stops after exactly `k` rounds when the probability first passes one half there. -/
lemma doublingLoop_eq {k fuel : ℕ} {hc : HealthState} {q : ℚ}
    (hq : IsNormal hc.currentProbability q) (hfuel : k ≤ fuel)
    (hlo : ∀ i < k, q * 2 ^ i ≤ 1 / 2) (hhi : 1 / 2 < q * 2 ^ k) :
    doublingLoop fuel hc = some (HealthState.countBit^[k] hc) := by
  induction k generalizing hc fuel q with
  | zero =>
    have hnot : ¬ hc.currentProbability ≤ 0.5 := by
      rw [hq.le_iff isNormal_half]
      simpa using hhi
    cases fuel <;> simp only [doublingLoop, if_neg hnot, Function.iterate_zero, id_eq]
  | succ k ih =>
    obtain ⟨fuel, rfl⟩ : ∃ n, fuel = n + 1 := ⟨fuel - 1, by omega⟩
    have h0 : q ≤ 1 / 2 := by simpa using hlo 0 (Nat.succ_pos k)
    have hdouble : IsNormal hc.countBit.currentProbability (q * 2) := by
      rw [HealthState.countBit_eq]
      exact hq.double (h0.trans (by norm_num))
    have hmul : ∀ i, q * 2 * 2 ^ i = q * 2 ^ (i + 1) := fun i => by rw [pow_succ']; ring
    rw [doublingLoop, if_pos ((hq.le_iff isNormal_half).mpr h0), Function.iterate_succ_apply]
    apply ih hdouble (by omega)
    · intro i hi
      rw [hmul]
      exact hlo (i + 1) (by omega)
    · rwa [hmul]

/-- What the loop does from a probability of at least `2 ^ -17`. -/
lemma doublingLoop_of_low {hc : HealthState}
    (hlow : ∃ q, IsNormal hc.currentProbability q ∧ 2 ^ (-17 : ℤ) ≤ q ∧ q ≤ 1) :
    ∃ k ≤ 17, doublingLoop doublingFuel hc = some (HealthState.countBit^[k] hc) ∧
      IsProbability (HealthState.countBit^[k] hc).currentProbability := by
  obtain ⟨q, hq, hlow, hhigh⟩ := hlow
  obtain ⟨k, hk, hlo, hhi, hle⟩ := exists_doublings hlow hhigh
  refine ⟨k, hk, doublingLoop_eq hq (by simp only [doublingFuel]; omega) hlo hhi, ?_⟩
  exact ⟨_, HealthState.countBit_iterate_probability hq hlo, hhi, hle⟩

lemma HealthState.Entered.doublingLoop {hc : HealthState} (h : hc.Entered) :
    ∃ k ≤ 17, doublingLoop doublingFuel hc = some (HealthState.countBit^[k] hc) ∧
      IsProbability (HealthState.countBit^[k] hc).currentProbability :=
  doublingLoop_of_low h.probability

/-! ### The end of a call -/

lemma HealthState.updateTables_count (hc : HealthState) (bit even : Bool)
    (hcount : hc.table even bit hc.prevBits < inmMaxCount) :
    (hc.updateTables bit even).table =
      Tables.count inmMaxCount (1 <<< hc.n) hc.table even bit hc.prevBits := by
  rw [Tables.count_eq_of_lt (by decide) hcount]
  by_cases hmax : u32 (hc.table even bit hc.prevBits + 1) = inmMaxCount
  · rw [if_pos hmax]
    cases bit <;> cases even <;> rw [table] at hmax <;>
      simp only [updateTables, Function.update_self, if_pos hmax, if_true, Bool.false_eq_true,
        if_false, scaleStats] <;>
      funext e b <;> cases e <;> cases b <;> rfl
  · rw [if_neg hmax]
    cases bit <;> cases even <;> rw [table] at hmax <;>
      simp [updateTables, -inmMaxCount, hmax] <;> funext e b <;> cases e <;> cases b <;> rfl

lemma HealthState.updateTables_table (hc : HealthState) (hn : hc.n = predictionBits)
    (bit even : Bool) (hcount : hc.table even bit hc.prevBits < inmMaxCount) :
    (hc.updateTables bit even).table =
      Tables.count inmMaxCount 16384 hc.table even bit hc.prevBits := by
  rw [hc.updateTables_count bit even hcount, hn]
  rfl

/-- Counting a bit changes tables only. -/
lemma HealthState.updateTables_frame (hc : HealthState) (bit even : Bool) :
    ∃ oe ze oo zo, hc.updateTables bit even =
      { hc with onesEven := oe, zerosEven := ze, onesOdd := oo, zerosOdd := zo } := by
  simp only [updateTables]
  split_ifs <;> exact ⟨_, _, _, _, rfl⟩

lemma scaleEntropy_frame (hc : HealthState) :
    ∃ e s em om, scaleEntropy hc =
      { hc with
        numBitsOfEntropy := e, numBitsSampled := s, evenMisfires := em, oddMisfires := om } := by
  simp only [scaleEntropy]
  split_ifs <;> exact ⟨_, _, _, _, rfl⟩

lemma scaleZeroOneCounts_frame (hc : HealthState) :
    ∃ z o, scaleZeroOneCounts hc = { hc with totalZeros := z, totalOnes := o } := by
  simp only [scaleZeroOneCounts]
  split_ifs <;> exact ⟨_, _, rfl⟩

lemma HealthState.finishBit_count (hc : HealthState) (bit even : Bool)
    (hcount : hc.table even bit hc.prevBits < inmMaxCount) :
    (hc.finishBit bit even).table =
      Tables.count inmMaxCount (1 <<< hc.n) hc.table even bit hc.prevBits := by
  have htables : hc.countSample.table = hc.table := by
    funext e b
    cases e <;> cases b <;> rfl
  have htab := hc.countSample.updateTables_count bit even (by rwa [htables])
  obtain ⟨_, _, _, _, hse⟩ := scaleEntropy_frame (hc.countSample.updateTables bit even)
  obtain ⟨_, _, hsz⟩ := scaleZeroOneCounts_frame
    (scaleEntropy (hc.countSample.updateTables bit even))
  rw [htables] at htab
  rw [finishBit, hsz, hse]
  refine Eq.trans ?_ htab
  funext e b
  cases e <;> cases b <;> rfl

lemma HealthState.finishBit_table {hc : HealthState} (hn : hc.n = predictionBits) (bit even : Bool)
    (hcount : hc.table even bit hc.prevBits < inmMaxCount) :
    (hc.finishBit bit even).table =
      Tables.count inmMaxCount 16384 hc.table even bit hc.prevBits := by
  rw [hc.finishBit_count bit even hcount, hn]
  rfl

/-- The end of a call touches tables and counters only. -/
lemma HealthState.finishBit_frame (hc : HealthState) (bit even : Bool) :
    ∃ oe ze oo zo e s em om z o, hc.finishBit bit even =
      { hc with
        onesEven := oe, zerosEven := ze, onesOdd := oo, zerosOdd := zo
        numBitsOfEntropy := e, numBitsSampled := s, evenMisfires := em, oddMisfires := om
        totalZeros := z, totalOnes := o } := by
  obtain ⟨oe, ze, oo, zo, htab⟩ := hc.countSample.updateTables_frame bit even
  obtain ⟨e, s, em, om, hse⟩ := scaleEntropy_frame (hc.countSample.updateTables bit even)
  obtain ⟨z, o, hsz⟩ := scaleZeroOneCounts_frame
    (scaleEntropy (hc.countSample.updateTables bit even))
  refine ⟨oe, ze, oo, zo, e, s, em, om, z, o, ?_⟩
  rw [finishBit, hsz, hse, htab]
  rfl

/-- The state after the doubling loop goes back to the invariant. -/
lemma HealthState.Entered.finishBit {hc : HealthState} (h : hc.Entered)
    (hp : IsProbability hc.currentProbability) (bit even : Bool) :
    (hc.finishBit bit even).Inv := by
  have htable := HealthState.finishBit_table h.n_eq bit even (h.table_lt even bit _)
  obtain ⟨_, _, _, _, _, _, _, _, _, _, hframe⟩ := hc.finishBit_frame bit even
  rw [hframe] at htable ⊢
  refine ⟨h.n_eq, ?_, h.prevBits_lt, hp⟩
  rw [htable]
  exact Tables.count_lt (by decide) h.table_lt even bit h.prevBits_lt

/-! ### A call -/

/-- The state in which the doubling loop is entered. -/
def HealthState.enterLoop (hc : HealthState) (evenBit oddBit even : Bool) : HealthState :=
  let bit := selectBit evenBit oddBit even
  ((hc.observe evenBit oddBit even).checkStuck bit).2.updateProbability bit even

lemma HealthState.Inv.enterLoop {hc : HealthState} (hinv : hc.Inv) (evenBit oddBit even : Bool) :
    (hc.enterLoop evenBit oddBit even).Entered :=
  HealthState.updateProbability_entered
    (HealthState.checkStuck_inv (HealthState.observe_inv hinv evenBit oddBit even) _) _ _

lemma HealthState.Entered.countBit_iterate {hc : HealthState} (h : hc.Entered) {k : ℕ}
    (hp : IsProbability (HealthState.countBit^[k] hc).currentProbability) :
    (HealthState.countBit^[k] hc).Entered := by
  obtain ⟨q, hq, hhalf, hone⟩ := hp
  have hit := hc.countBit_iterate k
  refine ⟨?_, ?_, ?_, q, hq, le_trans (by norm_num) hhalf.le, hone⟩
  · rw [hit]
    exact h.n_eq
  · intro e b i
    have := h.table_lt e b i
    rw [hit]
    cases e <;> cases b <;> exact this
  · rw [hit]
    exact h.prevBits_lt

/-- A call that returns has reported a stuck source, or it has come out of the doubling loop. -/
lemma inmHealthCheckAddBit_returned {hc hc' : HealthState} {evenBit oddBit even ok : Bool}
    (h : inmHealthCheckAddBit hc evenBit oddBit even = some (ok, hc')) :
    (ok = false ∧
      ((hc.observe evenBit oddBit even).checkStuck (selectBit evenBit oddBit even)).1 = true ∧
      hc' = ((hc.observe evenBit oddBit even).checkStuck (selectBit evenBit oddBit even)).2) ∨
    (ok = true ∧
      ((hc.observe evenBit oddBit even).checkStuck (selectBit evenBit oddBit even)).1 = false ∧
      ∃ hc₁, doublingLoop doublingFuel (hc.enterLoop evenBit oddBit even) = some hc₁ ∧
        hc' = hc₁.finishBit (selectBit evenBit oddBit even) even) := by
  rw [HealthState.enterLoop]
  simp only [inmHealthCheckAddBit] at h
  rcases hst : (hc.observe evenBit oddBit even).checkStuck (selectBit evenBit oddBit even)
    with ⟨_ | _, hc₁⟩ <;> rw [hst] at h
  · obtain ⟨hc₂, hloop, heq⟩ := Option.map_eq_some_iff.mp h
    cases heq
    exact .inr ⟨rfl, rfl, hc₂, hloop, rfl⟩
  · cases h
    exact .inl ⟨rfl, rfl, rfl⟩

/-- What a call does: it reports a stuck source and stops there, or it goes through the doubling
loop, in at most 17 rounds, and finishes. -/
theorem inmHealthCheckAddBit_cases {hc : HealthState} (hinv : hc.Inv)
    (evenBit oddBit even : Bool) :
    (((hc.observe evenBit oddBit even).checkStuck (selectBit evenBit oddBit even)).1 = true ∧
      inmHealthCheckAddBit hc evenBit oddBit even =
        some (false,
          ((hc.observe evenBit oddBit even).checkStuck (selectBit evenBit oddBit even)).2)) ∨
    (((hc.observe evenBit oddBit even).checkStuck (selectBit evenBit oddBit even)).1 = false ∧
      ∃ k ≤ 17, (HealthState.countBit^[k] (hc.enterLoop evenBit oddBit even)).Entered ∧
        inmHealthCheckAddBit hc evenBit oddBit even =
          some (true, (HealthState.countBit^[k] (hc.enterLoop evenBit oddBit even)).finishBit
            (selectBit evenBit oddBit even) even) ∧
        ((HealthState.countBit^[k] (hc.enterLoop evenBit oddBit even)).finishBit
            (selectBit evenBit oddBit even) even).Inv) := by
  have hentered := hinv.enterLoop evenBit oddBit even
  obtain ⟨k, hk, hloop, hp⟩ := hentered.doublingLoop
  rcases hst : (hc.observe evenBit oddBit even).checkStuck (selectBit evenBit oddBit even)
    with ⟨_ | _, hc₁⟩
  · right
    have hcounted := hentered.countBit_iterate hp
    refine ⟨rfl, k, hk, hcounted, ?_, hcounted.finishBit hp _ _⟩
    simp only [HealthState.enterLoop, hst] at hloop
    simp only [inmHealthCheckAddBit, hst, hloop, HealthState.enterLoop, Option.map_some]
  · left
    refine ⟨rfl, ?_⟩
    simp only [inmHealthCheckAddBit, hst]

/-- A call returns, and leaves the invariant, whether or not it reports a fault. -/
lemma inmHealthCheckAddBit_returns {hc : HealthState} (hinv : hc.Inv)
    (evenBit oddBit even : Bool) :
    ∃ r, inmHealthCheckAddBit hc evenBit oddBit even = some r ∧ r.2.Inv := by
  rcases inmHealthCheckAddBit_cases hinv evenBit oddBit even with
    ⟨_, heq⟩ | ⟨_, _, _, _, heq, hinv'⟩
  · exact ⟨_, heq, HealthState.checkStuck_inv (HealthState.observe_inv hinv _ _ _) _⟩
  · exact ⟨_, heq, hinv'⟩

end Userspace
