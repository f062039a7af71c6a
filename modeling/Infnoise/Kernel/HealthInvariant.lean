import Infnoise.Core.Machine
import Infnoise.Core.Tables
import Infnoise.Kernel.Health
import Mathlib.Tactic.IntervalCases
import Mathlib.Tactic.Ring

/-!
# The invariant of the kernel health checker

Every call keeps the table entries below `INM_MAX_COUNT` and the probability between one half
and one, whatever bits are fed and also after a call that reported a fault. The table bound is
what makes the doubling loop end: it keeps an observed frequency at or above `4 / 65536`, so a
probability never truncates to zero.
-/

namespace Kernel

open Core

/-! ### Fixed-point bounds -/

/-- No high bit is lost when the product is narrowed. -/
def FpMulExact (a b : ℕ) : Prop :=
  a * b < 18446744073709551616 ∧ (a * b) >>> fpShift < 4294967296

/-- No high bit is lost when the quotient is narrowed. -/
def FpDivExact (a b : ℕ) : Prop :=
  a <<< fpShift < 18446744073709551616 ∧ (a <<< fpShift) / b < 4294967296

lemma fpMul_eq {a b : ℕ} (h : FpMulExact a b) : fpMul a b = a * b / 65536 := by
  obtain ⟨h64, h32⟩ := h
  simp only [fpMul, fpShift, Nat.shiftRight_eq_div_pow, Nat.reducePow] at h32 ⊢
  rw [u64_of_lt h64, u32_of_lt h32]

lemma fpDiv_eq {a b : ℕ} (hb : b ≠ 0) (h : FpDivExact a b) : fpDiv a b = a * 65536 / b := by
  obtain ⟨h64, h32⟩ := h
  simp only [fpDiv, if_neg hb, fpShift, Nat.shiftLeft_eq, Nat.reducePow] at h64 h32 ⊢
  rw [u64_of_lt h64, u32_of_lt h32]

lemma fpMulExact_of_le {a b : ℕ} (ha : a ≤ fpOne) (hb : b ≤ fpOne) : FpMulExact a b := by
  have hab : a * b ≤ 65536 * 65536 := Nat.mul_le_mul ha hb
  simp only [FpMulExact, fpShift, Nat.shiftRight_eq_div_pow]
  omega

/-- A quotient by a non-zero divisor is exact as soon as the dividend fits in 32 bits. -/
lemma fpDivExact_of_le {a b c : ℕ} (ha : a < 4294967296) (hab : a ≤ c * b)
    (hc : c * 65536 < 4294967296) : FpDivExact a b := by
  simp only [FpDivExact, fpShift, Nat.shiftLeft_eq, Nat.reducePow]
  constructor
  · clear hab hc
    omega
  · have h : a * 65536 ≤ b * (c * 65536) := by
      calc a * 65536 ≤ c * b * 65536 := Nat.mul_le_mul_right _ hab
        _ = b * (c * 65536) := by ring
    exact lt_of_le_of_lt (Nat.div_le_of_le_mul h) hc

/-- The frequency of an observed bit, from two table entries below the bound. -/
lemma fpDiv_bounds {c o : ℕ} (hc : 0 < c) (hc' : c < inmMaxCount) (ho : o < inmMaxCount) :
    FpDivExact c (c + o) ∧ 4 ≤ fpDiv c (c + o) ∧ fpDiv c (c + o) ≤ fpOne := by
  simp only [inmMaxCount] at hc' ho
  have hex : FpDivExact c (c + o) := fpDivExact_of_le (c := 1) (by omega) (by omega) (by norm_num)
  rw [fpDiv_eq (by omega) hex]
  refine ⟨hex, ?_, ?_⟩
  · exact (Nat.le_div_iff_mul_le (by omega)).mpr (by omega)
  · exact Nat.div_le_of_le_mul (by simp only [fpOne]; omega)

/-- A probability above one half, multiplied by a frequency of at least `4 / 65536`. -/
lemma fpMul_bounds {p f : ℕ} (hp : fpHalf < p) (hp' : p ≤ fpOne) (hf : 4 ≤ f) (hf' : f ≤ fpOne) :
    2 ≤ fpMul p f ∧ fpMul p f ≤ fpOne := by
  have hlo : 32769 * 4 ≤ p * f := Nat.mul_le_mul hp hf
  have hhi : p * f ≤ 65536 * 65536 := Nat.mul_le_mul hp' hf'
  rw [fpMul_eq (fpMulExact_of_le hp' hf'), fpOne]
  omega

/-! ### The invariant -/

/-- The table that counts `bit` in the phase `even`. -/
def Health.table (h : Health) : Bool → Bool → ℕ → ℕ
  | true, true => h.onesEven
  | true, false => h.zerosEven
  | false, true => h.onesOdd
  | false, false => h.zerosOdd

/-- What holds of the checker at every call boundary. -/
structure Health.Inv (h : Health) : Prop where
  table_lt : ∀ even bit i, h.table even bit i < inmMaxCount
  prevBits_lt : h.prevBits < inmTableSize
  numBitsSampled_lt : h.numBitsSampled < inmMinData
  currentProb_gt : fpHalf < h.currentProb
  currentProb_le : h.currentProb ≤ fpOne
  numBitsOfEntropy_le : h.numBitsOfEntropy ≤ 15 * h.numBitsSampled

lemma infnoiseHealthInit_inv : infnoiseHealthInit.Inv where
  table_lt even bit i := by cases even <;> cases bit <;> simp [infnoiseHealthInit, Health.table]
  prevBits_lt := by simp [infnoiseHealthInit]
  numBitsSampled_lt := by simp [infnoiseHealthInit]
  currentProb_gt := by simp [infnoiseHealthInit]
  currentProb_le := by simp [infnoiseHealthInit]
  numBitsOfEntropy_le := by simp [infnoiseHealthInit]

lemma infnoiseHealthClearEntropy_inv {h : Health} (hinv : h.Inv) :
    (infnoiseHealthClearEntropy h).Inv where
  table_lt even bit i := by
    have := hinv.table_lt even bit i
    cases even <;> cases bit <;> exact this
  prevBits_lt := hinv.prevBits_lt
  numBitsSampled_lt := hinv.numBitsSampled_lt
  currentProb_gt := hinv.currentProb_gt
  currentProb_le := hinv.currentProb_le
  numBitsOfEntropy_le := hinv.numBitsOfEntropy_le

lemma infnoiseHealthReset_inv {h : Health} (hinv : h.Inv) : (infnoiseHealthReset h).Inv where
  table_lt even bit i := by
    have := hinv.table_lt even bit i
    cases even <;> cases bit <;> exact this
  prevBits_lt := hinv.prevBits_lt
  numBitsSampled_lt := by simp [infnoiseHealthReset]
  currentProb_gt := by simp [infnoiseHealthReset]
  currentProb_le := by simp [infnoiseHealthReset]
  numBitsOfEntropy_le := by simp [infnoiseHealthReset]

/-! ### The parts of a call -/

@[simp] lemma Health.observe_table (h : Health) (evenBit oddBit even : Bool) :
    (h.observe evenBit oddBit even).table = h.table := by
  funext e b
  cases e <;> cases b <;> rfl

/-- The context is the previous one, shifted, with the previous bit at its end. -/
lemma Health.observe_prevBits (h : Health) (evenBit oddBit even : Bool) :
    (h.observe evenBit oddBit even).prevBits = (2 * h.prevBits + h.prevBit.toNat) % 16384 := by
  have hb : h.prevBit.toNat < 2 ^ 1 := by cases h.prevBit <;> simp
  have hu : u32 (h.prevBits <<< 1) = (h.prevBits % 2147483648) <<< 1 := by
    simp only [u32, Nat.shiftLeft_eq]
    omega
  have hor : u32 (h.prevBits <<< 1) ||| h.prevBit.toNat
      = (h.prevBits % 2147483648) * 2 + h.prevBit.toNat := by
    rw [hu, ← Nat.shiftLeft_add_eq_or_of_lt hb, Nat.shiftLeft_eq, pow_one]
  simp only [observe, inmTableSize, hor]
  rw [show 16384 - 1 = 2 ^ 14 - 1 from rfl, Nat.and_two_pow_sub_one_eq_mod]
  omega

lemma Health.observe_prevBits_lt (h : Health) (evenBit oddBit even : Bool) :
    (h.observe evenBit oddBit even).prevBits < inmTableSize := by
  rw [Health.observe_prevBits]
  exact Nat.mod_lt _ (by decide)

lemma Health.observe_inv {h : Health} (hinv : h.Inv) (evenBit oddBit even : Bool) :
    (h.observe evenBit oddBit even).Inv where
  table_lt e b i := by rw [Health.observe_table]; exact hinv.table_lt e b i
  prevBits_lt := h.observe_prevBits_lt evenBit oddBit even
  numBitsSampled_lt := hinv.numBitsSampled_lt
  currentProb_gt := hinv.currentProb_gt
  currentProb_le := hinv.currentProb_le
  numBitsOfEntropy_le := hinv.numBitsOfEntropy_le

/-- The stuck-at check touches the totals and the run lengths only. -/
lemma Health.checkStuck_eq (h : Health) (bit : Bool) :
    ∃ ones zeros sOnes sZeros, (h.checkStuck bit).2 =
      { h with totalOnes := ones, totalZeros := zeros, seqOnes := sOnes, seqZeros := sZeros } := by
  simp only [checkStuck]
  split_ifs
  · exact ⟨_, _, _, _, rfl⟩
  · exact ⟨_, _, _, _, rfl⟩
  · exact ⟨_, _, _, _, rfl⟩

lemma Health.checkStuck_inv {h : Health} (hinv : h.Inv) (bit : Bool) :
    (h.checkStuck bit).2.Inv := by
  obtain ⟨_, _, _, _, heq⟩ := h.checkStuck_eq bit
  rw [heq]
  exact
    { table_lt := fun e b i => by
        have := hinv.table_lt e b i
        cases e <;> cases b <;> exact this
      prevBits_lt := hinv.prevBits_lt
      numBitsSampled_lt := hinv.numBitsSampled_lt
      currentProb_gt := hinv.currentProb_gt
      currentProb_le := hinv.currentProb_le
      numBitsOfEntropy_le := hinv.numBitsOfEntropy_le }

/-- The count of the bit observed, and of the other bit, in the context. -/
lemma Health.updateProb_eq (h : Health) (bit even : Bool) :
    h.updateProb bit even =
      { h with currentProb :=
          if 0 < u32 (h.table even bit h.prevBits + h.table even (!bit) h.prevBits) ∧
              0 < h.table even bit h.prevBits then
            fpMul h.currentProb (fpDiv (h.table even bit h.prevBits)
              (u32 (h.table even bit h.prevBits + h.table even (!bit) h.prevBits)))
          else h.currentProb } := by
  cases bit <;> cases even <;>
    simp only [updateProb, table, Bool.not_true, Bool.not_false, if_true, Bool.false_eq_true,
      if_false, gt_iff_lt, Nat.add_comm (h.onesEven _), Nat.add_comm (h.onesOdd _)] <;>
    split_ifs <;> simp_all

/-- With the tables below their bound, the loop is entered with a probability of at least
`2 / 65536`, and nothing was lost on the way. -/
lemma Health.updateProb_bounds {h : Health} (hinv : h.Inv) (bit even : Bool) :
    2 ≤ (h.updateProb bit even).currentProb ∧ (h.updateProb bit even).currentProb ≤ fpOne := by
  have hc := hinv.table_lt even bit h.prevBits
  have ho := hinv.table_lt even (!bit) h.prevBits
  have hgt := hinv.currentProb_gt
  have hle := hinv.currentProb_le
  rw [h.updateProb_eq]
  dsimp only
  split_ifs with hpos
  · have hsum : u32 (h.table even bit h.prevBits + h.table even (!bit) h.prevBits)
        = h.table even bit h.prevBits + h.table even (!bit) h.prevBits :=
      u32_of_lt (by simp only [inmMaxCount] at hc ho; omega)
    obtain ⟨_, hf, hf'⟩ := fpDiv_bounds hpos.2 hc ho
    rw [hsum]
    exact fpMul_bounds hgt hle hf hf'
  · exact ⟨by simp only [fpHalf] at hgt; omega, hle⟩

/-! ### The doubling loop -/

lemma Health.countBit_iterate (h : Health) (k : ℕ) :
    (Health.countBit^[k] h) =
      { h with
        currentProb := (Health.countBit^[k] h).currentProb
        numBitsOfEntropy := (Health.countBit^[k] h).numBitsOfEntropy
        entropyLevel := (Health.countBit^[k] h).entropyLevel } := by
  induction k with
  | zero => rfl
  | succ k ih =>
    rw [Function.iterate_succ_apply', Health.countBit, ih]

/-- As long as the loop condition held in every earlier round, `k` rounds multiply the
probability by `2 ^ k`. -/
lemma Health.countBit_iterate_prob (h : Health) {k : ℕ}
    (hlo : ∀ i < k, h.currentProb * 2 ^ i ≤ fpHalf) :
    (Health.countBit^[k] h).currentProb = h.currentProb * 2 ^ k := by
  induction k with
  | zero => simp
  | succ k ih =>
    have hk : h.currentProb * 2 ^ k ≤ 32768 := hlo k (Nat.lt_succ_self k)
    rw [Function.iterate_succ_apply', Health.countBit, ih fun i hi => hlo i (by omega)]
    dsimp only
    rw [Nat.shiftLeft_eq, pow_one, pow_succ, ← Nat.mul_assoc, u32_of_lt (by omega)]

lemma Health.countBit_iterate_entropy (h : Health) (k : ℕ)
    (hk : h.numBitsOfEntropy + k < 4294967296) :
    (Health.countBit^[k] h).numBitsOfEntropy = h.numBitsOfEntropy + k := by
  induction k with
  | zero => rfl
  | succ k ih =>
    rw [Function.iterate_succ_apply', Health.countBit, ih (by omega)]
    exact u32_of_lt (by omega)

/-- The loop stops after exactly `k` rounds when the condition first fails there. -/
lemma doublingLoop_eq {k fuel : ℕ} (h : Health) (hfuel : k ≤ fuel)
    (hlo : ∀ i < k, (Health.countBit^[i] h).currentProb ≤ fpHalf)
    (hhi : fpHalf < (Health.countBit^[k] h).currentProb) :
    doublingLoop fuel h = some (Health.countBit^[k] h) := by
  induction k generalizing h fuel with
  | zero =>
    have hnot : ¬ h.currentProb ≤ fpHalf := Nat.not_le.mpr hhi
    cases fuel <;> simp only [doublingLoop, if_neg hnot, Function.iterate_zero, id_eq]
  | succ k ih =>
    obtain ⟨fuel, rfl⟩ : ∃ n, fuel = n + 1 := ⟨fuel - 1, by omega⟩
    have h0 : h.currentProb ≤ fpHalf := hlo 0 (Nat.succ_pos k)
    rw [doublingLoop, if_pos h0, Function.iterate_succ_apply]
    apply ih
    · omega
    · intro i hi
      have := hlo (i + 1) (by omega)
      rwa [Function.iterate_succ_apply] at this
    · rwa [Function.iterate_succ_apply] at hhi

/-- A probability of at least `2 / 65536` passes one half within 15 doublings. -/
lemma exists_doublings {p : ℕ} (hp : 2 ≤ p) (hp' : p ≤ fpOne) :
    ∃ k ≤ 15, (∀ i < k, p * 2 ^ i ≤ fpHalf) ∧ fpHalf < p * 2 ^ k ∧ p * 2 ^ k ≤ fpOne := by
  have hex : ∃ k, fpHalf < p * 2 ^ k := ⟨15, by simp only [fpHalf]; omega⟩
  have hmin : ∀ i < Nat.find hex, p * 2 ^ i ≤ fpHalf := fun i hi =>
    Nat.not_lt.mp (Nat.find_min hex hi)
  refine ⟨Nat.find hex, Nat.find_min' hex (by simp only [fpHalf]; omega), hmin,
    Nat.find_spec hex, ?_⟩
  rcases hk : Nat.find hex with _ | k
  · simpa using hp'
  · have := hmin k (by omega)
    rw [pow_succ, ← Nat.mul_assoc]
    simp only [fpHalf, fpOne] at this ⊢
    omega

/-- What the loop does from a probability of at least `2 / 65536`. -/
lemma doublingLoop_spec {h : Health} (hp : 2 ≤ h.currentProb) (hp' : h.currentProb ≤ fpOne) :
    ∃ k ≤ 15, (∀ fuel, 15 ≤ fuel → doublingLoop fuel h = some (Health.countBit^[k] h)) ∧
      fpHalf < (Health.countBit^[k] h).currentProb ∧
      (Health.countBit^[k] h).currentProb ≤ fpOne := by
  obtain ⟨k, hk, hlo, hhi, hle⟩ := exists_doublings hp hp'
  have hprob : ∀ i ≤ k, (Health.countBit^[i] h).currentProb = h.currentProb * 2 ^ i :=
    fun i hi => h.countBit_iterate_prob fun j hj => hlo j (by omega)
  refine ⟨k, hk, fun fuel hfuel => ?_, by rwa [hprob k le_rfl], by rwa [hprob k le_rfl]⟩
  apply doublingLoop_eq h (by omega)
  · intro i hi
    rw [hprob i hi.le]
    exact hlo i hi
  · rwa [hprob k le_rfl]

/-! ### The tables -/

lemma Health.updateTables_table (h : Health) (bit even : Bool) :
    (h.updateTables bit even).table =
      Tables.count inmMaxCount inmTableSize h.table even bit h.prevBits := by
  rw [Tables.count]
  by_cases hmax : inmMaxCount ≤ u32 (h.table even bit h.prevBits + 1)
  · rw [if_pos hmax]
    cases bit <;> cases even <;> rw [table] at hmax <;>
      simp [updateTables, -inmMaxCount, hmax] <;> funext e b <;> cases e <;> cases b <;> rfl
  · rw [if_neg hmax]
    cases bit <;> cases even <;> rw [table] at hmax <;>
      simp [updateTables, -inmMaxCount, hmax] <;> funext e b <;> cases e <;> cases b <;> rfl

/-- Counting a bit changes tables only. -/
lemma Health.updateTables_frame (h : Health) (bit even : Bool) :
    ∃ oe ze oo zo, h.updateTables bit even =
      { h with onesEven := oe, zerosEven := ze, onesOdd := oo, zerosOdd := zo } := by
  simp only [updateTables]
  split_ifs <;> exact ⟨_, _, _, _, rfl⟩

/-! ### The end of a call -/

lemma scaleEntropy_frame (h : Health) :
    ∃ e s em om, scaleEntropy h =
      { h with numBitsOfEntropy := e, numBitsSampled := s, evenMisfires := em, oddMisfires := om } := by
  simp only [scaleEntropy]
  split_ifs
  · exact ⟨_, _, _, _, rfl⟩
  · exact ⟨_, _, _, _, rfl⟩

lemma scaleZeroOneCounts_frame (h : Health) :
    ∃ z o, scaleZeroOneCounts h = { h with totalZeros := z, totalOnes := o } := by
  simp only [scaleZeroOneCounts]
  split_ifs
  · exact ⟨_, _, rfl⟩
  · exact ⟨_, _, rfl⟩

/-- One more sample with at most 15 bits of entropy, scaled when the window is full. -/
lemma scaleEntropy_bounds {h : Health} (hs : h.numBitsSampled ≤ inmMinData)
    (he : h.numBitsOfEntropy ≤ 15 * h.numBitsSampled) :
    (scaleEntropy h).numBitsSampled < inmMinData ∧
      (scaleEntropy h).numBitsOfEntropy ≤ 15 * (scaleEntropy h).numBitsSampled := by
  by_cases hmin : h.numBitsSampled ≥ inmMinData
  · rw [scaleEntropy, if_pos hmin]
    simp only [Nat.shiftRight_eq_div_pow, inmMinData] at hs hmin ⊢
    omega
  · rw [scaleEntropy, if_neg hmin]
    exact ⟨Nat.not_le.mp hmin, he⟩

lemma Health.finishBit_table_eq (h : Health) (bit even : Bool) :
    (h.finishBit bit even).table =
      Tables.count inmMaxCount inmTableSize h.table even bit h.prevBits := by
  have htab := h.countSample.updateTables_table bit even
  obtain ⟨_, _, _, _, hse⟩ := scaleEntropy_frame (h.countSample.updateTables bit even)
  obtain ⟨_, _, hsz⟩ := scaleZeroOneCounts_frame (scaleEntropy (h.countSample.updateTables bit even))
  have htables : h.countSample.table = h.table := by
    funext e b
    cases e <;> cases b <;> rfl
  rw [htables] at htab
  rw [finishBit, hsz, hse]
  refine Eq.trans ?_ htab
  funext e b
  cases e <;> cases b <;> rfl

/-- The state after the doubling loop goes back to the invariant. -/
lemma Health.finishBit_inv {h : Health} (htable : ∀ even bit i, h.table even bit i < inmMaxCount)
    (hprev : h.prevBits < inmTableSize) (hs : h.numBitsSampled < inmMinData)
    (hgt : fpHalf < h.currentProb) (hle : h.currentProb ≤ fpOne)
    (he : h.numBitsOfEntropy ≤ 15 * (h.numBitsSampled + 1)) (bit even : Bool) :
    (h.finishBit bit even).Inv := by
  have hlt := Tables.count_lt (by decide) htable even bit hprev
  obtain ⟨oe, ze, oo, zo, htab⟩ := h.countSample.updateTables_frame bit even
  have hu : u32 (h.numBitsSampled + 1) = h.numBitsSampled + 1 :=
    u32_of_lt (by simp only [inmMinData] at hs; omega)
  obtain ⟨hs', he'⟩ := scaleEntropy_bounds (h := h.countSample.updateTables bit even)
    (by rw [htab]; simp only [countSample, hu, inmMinData] at hs ⊢; omega)
    (by rw [htab]; simp only [countSample, hu]; omega)
  obtain ⟨e, s, em, om, hse⟩ := scaleEntropy_frame (h.countSample.updateTables bit even)
  obtain ⟨z, o, hsz⟩ := scaleZeroOneCounts_frame (scaleEntropy (h.countSample.updateTables bit even))
  exact
    { table_lt := fun e b i => by
        rw [finishBit_table_eq]
        exact hlt e b i
      prevBits_lt := by rw [finishBit, hsz, hse, htab]; exact hprev
      numBitsSampled_lt := by rw [finishBit, hsz]; exact hs'
      currentProb_gt := by rw [finishBit, hsz, hse, htab]; exact hgt
      currentProb_le := by rw [finishBit, hsz, hse, htab]; exact hle
      numBitsOfEntropy_le := by rw [finishBit, hsz]; exact he' }

end Kernel
