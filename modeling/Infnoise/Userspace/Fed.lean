import Infnoise.Kernel.Fed
import Infnoise.Userspace.Entropy
import Infnoise.Userspace.HealthAgreement
import Infnoise.Userspace.Warmup

/-!
# The userspace health checker on the shift register

On the bits of a maximal shift register the userspace checker has the statistics of the kernel
checker, so no bit of them is ever stuck. The entropy it counts is its own, but the frequencies are
so simple that it follows the meter as well, at a rate that stays clear of the rounding.
-/

namespace Userspace

open Core Core.Binary64 Core.ShiftRegister Core.Meter
open Kernel (Health selectBit infnoiseHealthClearEntropy)

/-! ### The rate -/

/-- A little less than the bits of entropy per sample from which on the check holds, when `q` are
expected. -/
def okRate (q : ℚ) : ℚ := q / 1.0300002

lemma le_okRate {q : ℚ} (hq : 0.8796 ≤ q) : 853 / 1000 ≤ okRate q := by
  rw [okRate, le_div_iff₀ (by norm_num)]
  norm_num at hq ⊢
  linarith

lemma okRate_le {q : ℚ} (hq : q ≤ 0.8799) : okRate q ≤ 855 / 1000 := by
  rw [okRate, div_le_iff₀ (by norm_num)]
  norm_num at hq ⊢
  linarith

section

variable {hc : HealthState} {q : ℚ} {s : ℕ} (hexpected : IsNormal hc.expectedEntropyPerBit q)
  (hs : hc.numBitsSampled = s) (hlow : 40000 ≤ s) (hhigh : s < 80000)
  (hpos : 0 < hc.numBitsOfEntropy) (hlt : hc.numBitsOfEntropy < 4294967296)

include hlow hhigh hpos hlt in
/-- The counts as rationals. -/
lemma counts_bounds : (0 : ℚ) < s ∧ (40000 : ℚ) ≤ s ∧ (s : ℚ) ≤ 80000 ∧
    (1 : ℚ) ≤ hc.numBitsOfEntropy ∧ (hc.numBitsOfEntropy : ℚ) ≤ 4294967296 := by
  refine ⟨Nat.cast_pos.mpr (by omega), ?_, ?_, ?_, ?_⟩
  · exact_mod_cast hlow
  · exact_mod_cast hhigh.le
  · exact_mod_cast hpos
  · exact_mod_cast hlt.le

include hs hlow hhigh hpos hlt in
/-- The estimate, up to rounding. -/
lemma isNormal_estimate : ∃ r, IsNormal (inmHealthCheckEstimateEntropyPerBit hc) r ∧
    (hc.numBitsOfEntropy / s : ℚ) * (1 - 2 ^ (-52 : ℤ)) ≤ r ∧
      r ≤ (hc.numBitsOfEntropy / s : ℚ) * (1 + 2 ^ (-52 : ℤ)) := by
  obtain ⟨hsq, hsq1, hsq', heq, heq'⟩ := counts_bounds hlow hhigh hpos hlt
  rw [inmHealthCheckEstimateEntropyPerBit, hs]
  apply (isNormal_ofNat hpos (by omega)).div_near (isNormal_ofNat (by omega) (by omega))
  · rw [le_div_iff₀ hsq]
    norm_num
    linarith
  · rw [div_le_iff₀ hsq]
    norm_num
    linarith

include hexpected hs hlow hhigh hpos hlt in
/-- The two comparisons of the verdict, up to rounding. -/
lemma exists_verdict : ∃ v w : ℚ,
    inmHealthCheckOkToUseData hc = (decide (80000 ≤ hc.totalBits) && decide (q ≤ v) &&
      decide (w ≤ q)) ∧
    (hc.numBitsOfEntropy / s : ℚ) * 1.02999989 ≤ v ∧ v ≤ (hc.numBitsOfEntropy / s : ℚ) * 1.0300002 ∧
      w ≤ (hc.numBitsOfEntropy / s : ℚ) / 1.0299998 := by
  obtain ⟨r, hr, hrlow, hrhigh⟩ := isNormal_estimate hs hlow hhigh hpos hlt
  obtain ⟨a, ha, halow, hahigh⟩ := isNormal_inmAccuracy
  obtain ⟨p, hp⟩ : ∃ p : ℚ, p = hc.numBitsOfEntropy / s := ⟨_, rfl⟩
  rw [← hp] at hrlow hrhigh ⊢
  obtain ⟨hsq, hsq1, hsq', heq, heq'⟩ := counts_bounds hlow hhigh hpos hlt
  have hplow : 1 / 80000 ≤ p := by
    rw [hp, le_div_iff₀ hsq]
    linarith
  have hphigh : p ≤ 4294967296 := by
    rw [hp, div_le_iff₀ hsq]
    linarith
  have hppos : 0 < p := lt_of_lt_of_le (by norm_num) hplow
  have hapos : 0 < a := ha.pos
  norm_num at hrlow hrhigh halow hahigh
  have hrlow' : 1 / 100000 ≤ r := by linarith
  have hrhigh' : r ≤ 5000000000 := by linarith
  -- the products and quotients with the accuracy
  have hmul : r * 1.0299999 ≤ r * a ∧ r * a ≤ r * 1.0300001 := by
    norm_num
    exact ⟨mul_le_mul_of_nonneg_left halow (by linarith),
      mul_le_mul_of_nonneg_left hahigh (by linarith)⟩
  have hdiv : r / a ≤ r / 1.0299999 := by
    norm_num
    exact div_le_div_of_nonneg_left (by linarith) (by norm_num) halow
  have hdiv' : r / 1.0300001 ≤ r / a := by
    norm_num
    exact div_le_div_of_nonneg_left (by linarith) hapos hahigh
  norm_num at hmul hdiv hdiv'
  obtain ⟨v, hv, hvlow, hvhigh⟩ := hr.mul_near ha (by norm_num; linarith [hmul.1])
    (by norm_num; linarith [hmul.2])
  obtain ⟨w, hw, _, hwhigh⟩ := hr.div_near ha (by norm_num; linarith) (by norm_num; linarith)
  refine ⟨v, w, ?_, ?_, ?_, ?_⟩
  · rw [inmHealthCheckOkToUseData]
    simp only [hexpected.le_iff hv, hw.le_iff hexpected, inmMinData, ge_iff_le]
  · norm_num at hvlow ⊢
    linarith [hmul.1]
  · norm_num at hvhigh ⊢
    linarith [hmul.2]
  · norm_num at hwhigh ⊢
    linarith

include hexpected hs hlow hhigh in
/-- Up to the upper bound, which is far away, the verdict is the comparison with the rate. -/
lemma okToUseData_of_excess (hq : 0.8796 ≤ q) (hq' : q ≤ 0.8799) (hbits : 80000 ≤ hc.totalBits)
    (hexcess : okRate q * s + 1 / 20 ≤ hc.numBitsOfEntropy)
    (hexcess' : hc.numBitsOfEntropy ≤ okRate q * s + 1302) :
    inmHealthCheckOkToUseData hc = true := by
  have hsq : (40000 : ℚ) ≤ s := by exact_mod_cast hlow
  have hsq' : (s : ℚ) ≤ 80000 := by exact_mod_cast hhigh.le
  have hsq0 : (0 : ℚ) < s := by linarith
  have hrate : okRate q * 1.0300002 = q := div_mul_cancel₀ q (by norm_num)
  have hratelow := le_okRate hq
  have hratehigh := okRate_le hq'
  have hmul : okRate q * s ≤ 855 / 1000 * s := mul_le_mul_of_nonneg_right hratehigh hsq0.le
  have hpos : 0 < hc.numBitsOfEntropy := by
    have hmul0 : 0 ≤ okRate q * s := mul_nonneg (by linarith) hsq0.le
    have : (0 : ℚ) < hc.numBitsOfEntropy := by linarith
    exact_mod_cast this
  have hlt : hc.numBitsOfEntropy < 4294967296 := by
    have : (hc.numBitsOfEntropy : ℚ) < 4294967296 := by linarith
    exact_mod_cast this
  obtain ⟨v, w, hverdict, hv, _, hw⟩ := exists_verdict hexpected hs hlow hhigh hpos hlt
  -- half a tenth of a bit in 80000 samples is more than the rounding
  have hplow : okRate q + 1 / 1600000 ≤ hc.numBitsOfEntropy / s := by
    rw [le_div_iff₀ hsq0]
    linarith
  have hphigh : hc.numBitsOfEntropy / s ≤ okRate q + 1302 / 40000 := by
    rw [div_le_iff₀ hsq0]
    linarith
  norm_num at hv hw hrate hq
  rw [hverdict]
  simp only [Bool.and_eq_true, decide_eq_true_iff]
  refine ⟨⟨hbits, ?_⟩, ?_⟩ <;> linarith

include hexpected hs hlow hhigh hpos hlt in
/-- When the check holds the rate is reached. -/
lemma excess_of_okToUseData (hok : inmHealthCheckOkToUseData hc = true) :
    okRate q * s ≤ hc.numBitsOfEntropy := by
  obtain ⟨v, w, hverdict, _, hv, _⟩ := exists_verdict hexpected hs hlow hhigh hpos hlt
  have hsq : (0 : ℚ) < s := Nat.cast_pos.mpr (by omega)
  rw [hverdict] at hok
  simp only [Bool.and_eq_true, decide_eq_true_iff] at hok
  rw [← le_div_iff₀ hsq, okRate, div_le_iff₀ (by norm_num)]
  exact hok.1.2.trans hv

end

/-! ### The state on the register -/

/-- The checker after the first `t` bits of the register, when `q` bits of entropy are expected. -/
structure HealthState.Fed (q : ℚ) (t : ℕ) (hc : HealthState) : Prop where
  matched : ∃ h : Health, h.Fed t ∧ h.entropyLevel = 0 ∧ Matched h hc
  expected : IsNormal hc.expectedEntropyPerBit q
  le_expected : 0.8796 ≤ q
  expected_le : q ≤ 0.8799
  bounds : Bounds t hc.numBitsOfEntropy
  entropy_le : hc.numBitsOfEntropy ≤ 2 * t

section

variable {q : ℚ} {t : ℕ} {hc : HealthState} (hfed : hc.Fed q t)

include hfed

lemma HealthState.Fed.inv : hc.Inv := by
  obtain ⟨_, _, _, hm⟩ := hfed.matched
  exact hm.inv'

lemma HealthState.Fed.totalBits_eq : hc.totalBits = t := by
  obtain ⟨h, hh, _, hm⟩ := hfed.matched
  rw [← hm.agree.totalBits_eq, hh.totalBits_eq]

lemma HealthState.Fed.numBitsSampled_eq : hc.numBitsSampled = samples t := by
  obtain ⟨h, hh, _, hm⟩ := hfed.matched
  rw [← hm.agree.numBitsSampled_eq, hh.numBitsSampled_eq]

/-- The context of bit `t` is made of the 14 bits before it. -/
lemma HealthState.Fed.observe_prevBits (evenBit oddBit even : Bool) :
    (hc.observe evenBit oddBit even).prevBits = window t % 16384 := by
  obtain ⟨h, hh, _, hm⟩ := hfed.matched
  rw [HealthState.observe_prevBits hfed.inv.n_eq, ← hm.agree.prevBits_eq, ← hm.agree.prevBit_eq,
    hh.context_eq]

/-- The counts in that context. -/
lemma HealthState.Fed.counts_eq :
    hc.table (decide (t % 2 = 1)) (bit t) (window t % 16384) = same t ∧
      hc.table (decide (t % 2 = 1)) (!bit t) (window t % 16384) = other t := by
  obtain ⟨h, hh, _, hm⟩ := hfed.matched
  rw [← hm.agree.table_eq]
  exact hh.counts_eq

lemma HealthState.Fed.clearEntropy : (inmClearEntropyLevel hc).Fed q t := by
  obtain ⟨h, hh, hlevel, hm⟩ := hfed.matched
  have hcleared : Matched h (inmClearEntropyLevel hc) :=
    ⟨{ hm.agree with }, hm.inv, inmClearEntropyLevel_inv hm.inv', hm.within⟩
  exact ⟨⟨h, hh, hlevel, hcleared⟩, hfed.expected, hfed.le_expected, hfed.expected_le, hfed.bounds,
    hfed.entropy_le⟩

/-- The statistics do not depend on the entropy. -/
lemma HealthState.Fed.withEntropy {entropy : ℕ} (hbounds : Bounds t entropy)
    (hle : entropy ≤ 2 * t) : { hc with numBitsOfEntropy := entropy }.Fed q t := by
  obtain ⟨h, hh, hlevel, hm⟩ := hfed.matched
  have hinv : { hc with numBitsOfEntropy := entropy }.Inv :=
    { n_eq := hm.inv'.n_eq
      table_lt := fun even bit i => by
        have := hm.inv'.table_lt even bit i
        cases even <;> cases bit <;> exact this
      prevBits_lt := hm.inv'.prevBits_lt
      probability := hm.inv'.probability }
  exact ⟨⟨h, hh, hlevel, ⟨{ hm.agree with }, hm.inv, hinv, hm.within⟩⟩, hfed.expected,
    hfed.le_expected, hfed.expected_le, hbounds, hle⟩

/-- Without entropy there has been no context with both bits. -/
lemma HealthState.Fed.entropy_pos (ht : 80000 ≤ t) (ht' : t ≤ 190976) :
    0 < hc.numBitsOfEntropy := by
  obtain ⟨_, _, hsecond, _, hthird, hfourth⟩ := hfed.bounds
  omega

lemma HealthState.Fed.ok_of_excess (ht : 80000 ≤ t)
    (hlow : 1 / 20 ≤ excess (okRate q) t hc.numBitsOfEntropy)
    (hhigh : excess (okRate q) t hc.numBitsOfEntropy ≤ 1302) :
    inmHealthCheckOkToUseData hc = true := by
  rw [excess] at hlow hhigh
  exact okToUseData_of_excess hfed.expected hfed.numBitsSampled_eq (le_samples ht) (samples_lt t)
    hfed.le_expected hfed.expected_le (hfed.totalBits_eq ▸ ht) (by linarith) (by linarith)

lemma HealthState.Fed.excess_of_ok (hok : inmHealthCheckOkToUseData hc = true) (ht' : t ≤ 190976) :
    80000 ≤ t ∧ 0 ≤ excess (okRate q) t hc.numBitsOfEntropy := by
  have ht : 80000 ≤ t := by
    rw [inmHealthCheckOkToUseData, Bool.and_eq_true, Bool.and_eq_true, decide_eq_true_iff,
      hfed.totalBits_eq] at hok
    exact hok.1.1
  have hle := hfed.entropy_le
  refine ⟨ht, sub_nonneg.mpr ?_⟩
  exact excess_of_okToUseData hfed.expected hfed.numBitsSampled_eq (le_samples ht) (samples_lt t)
    (hfed.entropy_pos ht ht') (by omega) hok

end

/-! ### The doubling loop -/

/-- The probability with which the doubling loop is entered. -/
def enteringProbability (t : ℕ) (x : Float) : Float :=
  if 0 < same t then x * (Float.ofNat (same t) / Float.ofNat (same t + other t)) else x

lemma two_zpow_le_quarter : (2 : ℚ) ^ (-1000 : ℤ) ≤ 1 / 4 :=
  calc (2 : ℚ) ^ (-1000 : ℤ) ≤ 2 ^ (-2 : ℤ) := zpow_le_zpow_right₀ (by norm_num) (by norm_num)
    _ = 1 / 4 := by norm_num

/-- The frequencies between a third and a half. -/
lemma isNormal_small_frequency {c n : ℕ} (hc : 0 < c) (hn : n < 2 ^ 53) (hlow : n ≤ 3 * c)
    (hhigh : 2 * c ≤ n) :
    ∃ f, IsNormal (Float.ofNat c / Float.ofNat n) f ∧ 9 / 32 ≤ f ∧ f ≤ 1 / 2 := by
  have hnq : (0 : ℚ) < n := Nat.cast_pos.mpr (by omega)
  have hlowq : (n : ℚ) ≤ 3 * c := by exact_mod_cast hlow
  have hhighq : (2 * c : ℚ) ≤ n := by exact_mod_cast hhigh
  have h932 : IsNormal 0.28125 ((5066549580791808 : ℕ) * 2 ^ (-54 : ℤ)) :=
    isNormal_of_eq (by norm_num) (by norm_num) (by norm_num) (by norm_num) (by norm_num)
      (by decide +kernel)
  norm_num at h932
  apply (isNormal_ofNat hc (by omega)).div (isNormal_ofNat (by omega) hn) h932 isNormal_half
  · rw [le_div_iff₀ hnq]
    linarith
  · rw [div_le_iff₀ hnq]
    linarith
  · exact two_zpow_le_quarter.trans (by norm_num)

/-- In the first two periods, and after 14 zeros, it has not changed; later it has been divided by
two up to three, and one or two doublings make up for that. -/
lemma exists_gain {t : ℕ} (ht : t < 196602) {x : Float} (hx : IsProbability x) :
    ∃ gain ≤ 2, Gain t gain ∧ ∃ q, IsNormal (enteringProbability t x) q ∧
      (∀ i < gain, q * 2 ^ i ≤ 1 / 2) ∧ 1 / 2 < q * 2 ^ gain := by
  obtain ⟨p, hp, hhalf, hone⟩ := hx
  rcases frequency_cases ht with ⟨hlt, hsame⟩ | ⟨hmod, hpos, hle, hother⟩ | ⟨hge, hcases⟩
  · refine ⟨0, Nat.zero_le _, ⟨fun _ => rfl, fun _ => Nat.zero_le _, by omega⟩, p, ?_, by simp, ?_⟩
    · rwa [enteringProbability, hsame, if_neg (lt_irrefl 0)]
    · simpa using hhalf
  · refine ⟨0, Nat.zero_le _, ⟨fun _ => rfl, fun _ => Nat.zero_le _, by omega⟩, p, ?_, by simp, ?_⟩
    · have hn := isNormal_ofNat hpos (by omega)
      have hdiv : (same t : ℚ) / same t = 1 := div_self (Nat.cast_pos.mpr hpos).ne'
      obtain ⟨f, hf, hf1, hf1'⟩ := hn.div hn isNormal_one isNormal_one hdiv.ge hdiv.le
        (two_zpow_le_quarter.trans (by norm_num))
      obtain rfl : f = 1 := le_antisymm hf1' hf1
      have hmul := hp.mul_exact hf (by rwa [mul_one])
      rw [enteringProbability, if_pos hpos, hother, Nat.add_zero]
      rwa [mul_one] at hmul
    · simpa using hhalf
  · have hgain : ∀ gain, 1 ≤ gain → gain ≤ 2 → Gain t gain := fun gain hpos hle =>
      ⟨by omega, fun _ => hle, fun _ _ _ => hpos⟩
    have hpos : 0 < same t := by omega
    obtain ⟨f, hf, hflow, hfhigh⟩ := isNormal_small_frequency (n := same t + other t) hpos (by omega)
      (by omega) (by omega)
    have h964 : IsNormal 0.140625 ((5066549580791808 : ℕ) * 2 ^ (-55 : ℤ)) :=
      isNormal_of_eq (by norm_num) (by norm_num) (by norm_num) (by norm_num) (by norm_num)
        (by decide +kernel)
    norm_num at h964
    obtain ⟨q, hq, hqlow, hqhigh⟩ := hp.mul hf h964 isNormal_half (by nlinarith) (by nlinarith)
    have hentering : IsNormal (enteringProbability t x) q := by
      rwa [enteringProbability, if_pos hpos]
    -- above a quarter one doubling is enough
    rcases lt_or_ge (1 / 4) q with hlt | hge'
    · refine ⟨1, by norm_num, hgain 1 le_rfl (by norm_num), q, hentering, fun i hi => ?_, ?_⟩
      · obtain rfl : i = 0 := by omega
        simpa using hqhigh
      · linarith
    · refine ⟨2, le_rfl, hgain 2 (by norm_num) le_rfl, q, hentering, fun i hi => ?_, ?_⟩
      · interval_cases i <;> linarith
      · linarith

/-- What `k` rounds of the doubling loop add to the entropy. -/
lemma HealthState.countBit_iterate_entropy {e : HealthState} {k : ℕ}
    (hk : e.numBitsOfEntropy + k < 4294967296) :
    (HealthState.countBit^[k] e).numBitsOfEntropy = e.numBitsOfEntropy + k := by
  induction k with
  | zero => rfl
  | succ k ih =>
    rw [Function.iterate_succ_apply', countBit_eq]
    dsimp only
    rw [ih (by omega), Nat.add_assoc, u32_of_lt (by omega)]

/-- The level rises with the entropy while the check holds, and never faster. -/
lemma HealthState.countBit_iterate_level {e : HealthState} {k : ℕ}
    (hk : e.entropyLevel + k < 4294967296) :
    e.entropyLevel ≤ (HealthState.countBit^[k] e).entropyLevel ∧
      (HealthState.countBit^[k] e).entropyLevel ≤ e.entropyLevel + k ∧
      ((∀ i < k, inmHealthCheckOkToUseData (HealthState.countBit^[i + 1] e) = true) →
        (HealthState.countBit^[k] e).entropyLevel = e.entropyLevel + k) := by
  induction k with
  | zero => exact ⟨le_rfl, le_rfl, fun _ => rfl⟩
  | succ k ih =>
    obtain ⟨hle, hle', heq⟩ := ih (by omega)
    obtain ⟨g, hg⟩ : ∃ g, g = HealthState.countBit^[k] e := ⟨_, rfl⟩
    have hsucc : ∀ i, HealthState.countBit^[i + 1] e = (HealthState.countBit^[i] e).countBit :=
      fun i => Function.iterate_succ_apply' _ _ _
    rw [← hg] at hle hle' heq
    rw [hsucc k, ← hg]
    have hu : u32 (g.entropyLevel + 1) = g.entropyLevel + 1 := u32_of_lt (by omega)
    -- the check does not look at the level
    have hcount : g.countBit.entropyLevel =
        if inmHealthCheckOkToUseData g.countBit then g.entropyLevel + 1 else g.entropyLevel := by
      obtain ⟨x, hx⟩ : ∃ x : HealthState, x = { g with
          currentProbability := g.currentProbability * 2.0
          numBitsOfEntropy := u32 (g.numBitsOfEntropy + 1) } := ⟨_, rfl⟩
      have hlevel : x.entropyLevel = g.entropyLevel := by rw [hx]
      have heq : g.countBit = if inmHealthCheckOkToUseData x then
          { x with entropyLevel := u32 (x.entropyLevel + 1) } else x := by rw [hx]; rfl
      rw [heq]
      by_cases hok : inmHealthCheckOkToUseData x = true
      · rw [if_pos hok]
        exact (congrArg u32 (by rw [hlevel])).trans (hu.trans (if_pos hok).symm)
      · rw [if_neg hok, if_neg hok, hlevel]
    refine ⟨?_, ?_, fun hok => ?_⟩
    · rw [hcount]
      split_ifs <;> omega
    · rw [hcount]
      split_ifs <;> omega
    · have hlast := hok k (Nat.lt_succ_self k)
      rw [hsucc, ← hg] at hlast
      rw [hcount, if_pos hlast, heq fun i hi => hok i (by omega), Nat.add_assoc]

/-! ### One bit -/

/-- The checker in the call for bit `t`, from the doubling loop on. -/
structure HealthState.Observed (q : ℚ) (t : ℕ) (e : HealthState) : Prop where
  totalBits_eq : e.totalBits = t + 1
  numBitsSampled_eq : e.numBitsSampled = samples t
  expected : IsNormal e.expectedEntropyPerBit q

lemma HealthState.Observed.countBit_iterate {q : ℚ} {t : ℕ} {e : HealthState} (h : e.Observed q t)
    (k : ℕ) : (HealthState.countBit^[k] e).Observed q t := by
  rw [e.countBit_iterate]
  exact ⟨h.totalBits_eq, h.numBitsSampled_eq, h.expected⟩

/-- The end of the call moves the meter. -/
lemma HealthState.Observed.finishBit {q : ℚ} {t entropy gain : ℕ} {g : HealthState}
    (h : g.Observed q t) (hentropy : g.numBitsOfEntropy = entropy + gain) (bit even : Bool) :
    IsNormal (g.finishBit bit even).expectedEntropyPerBit q ∧
      (g.finishBit bit even).entropyLevel = g.entropyLevel ∧
      (g.finishBit bit even).numBitsOfEntropy = entropyAfter t entropy gain := by
  have hlt := samples_lt t
  have hsampled := h.numBitsSampled_eq
  obtain ⟨_, _, _, _, htab⟩ := g.countSample.updateTables_frame bit even
  obtain ⟨_, _, hsz⟩ := scaleZeroOneCounts_frame
    (scaleEntropy (g.countSample.updateTables bit even))
  rw [HealthState.finishBit, hsz, htab]
  simp only [scaleEntropy, countSample, entropyAfter, hsampled, hentropy,
    u32_of_lt (by omega : samples t + 1 < 4294967296), inmMinData, Nat.shiftRight_eq_div_pow,
    pow_one]
  split_ifs <;> exact ⟨h.expected, rfl, rfl⟩

section

variable {q : ℚ} {t : ℕ} {hc : HealthState} (hfed : hc.Fed q t)

include hfed

/-- The call for bit `t` reports no fault, and leaves the statistics of the register. -/
lemma HealthState.Fed.addBit_matched (ht : t < 190976) :
    ((hc.observe (bit t) (bit t) (decide (t % 2 = 1))).checkStuck (bit t)).1 = false ∧
      ∃ hc', inmHealthCheckAddBit hc (bit t) (bit t) (decide (t % 2 = 1)) = some (true, hc') ∧
        ∃ h' : Health, h'.Fed (t + 1) ∧ h'.entropyLevel = 0 ∧ Matched h' hc' := by
  have hselect : selectBit (bit t) (bit t) (decide (t % 2 = 1)) = bit t := by
    rw [selectBit, ite_self]
  obtain ⟨h, hh, hlevel, hm⟩ := hfed.matched
  obtain ⟨hadd, hnext, _⟩ := hh.addBit ht (by omega)
  obtain ⟨⟨ok, hc'⟩, hadd', _⟩ := inmHealthCheckAddBit_returns hfed.inv (bit t) (bit t)
    (decide (t % 2 = 1))
  obtain ⟨rfl, hmatched⟩ := hm.addBit ⟨bit t, bit t, decide (t % 2 = 1)⟩ hadd hadd'
  have hm' := hmatched rfl
  refine ⟨?_, hc', hadd', infnoiseHealthClearEntropy (Kernel.fedBit t h), hnext.clearEntropy, rfl,
    { hm'.agree with }, Kernel.infnoiseHealthClearEntropy_inv hm'.inv, hm'.inv', { hm'.within with }⟩
  rcases inmHealthCheckAddBit_cases hfed.inv (bit t) (bit t) (decide (t % 2 = 1)) with
    ⟨_, hstuck⟩ | ⟨hok, _⟩
  · rw [hstuck] at hadd'
    cases hadd'
  · rwa [hselect] at hok

/-- How the loop is entered. -/
lemma HealthState.Fed.enterLoop (ht : t < 190976) {e : HealthState}
    (he : hc.enterLoop (bit t) (bit t) (decide (t % 2 = 1)) = e) :
    e.Observed q t ∧ e.currentProbability = enteringProbability t hc.currentProbability ∧
      e.numBitsOfEntropy = hc.numBitsOfEntropy ∧ e.entropyLevel = hc.entropyLevel := by
  have hselect : selectBit (bit t) (bit t) (decide (t % 2 = 1)) = bit t := by
    rw [selectBit, ite_self]
  obtain ⟨ones, zeros, sOnes, sZeros, hstuck⟩ :=
    (hc.observe (bit t) (bit t) (decide (t % 2 = 1))).checkStuck_eq (bit t)
  have htable : ((hc.observe (bit t) (bit t) (decide (t % 2 = 1))).checkStuck (bit t)).2.table =
      hc.table := by
    rw [hstuck]
    funext e b
    cases e <;> cases b <;> rfl
  have hprev : ((hc.observe (bit t) (bit t) (decide (t % 2 = 1))).checkStuck (bit t)).2.prevBits =
      window t % 16384 := by
    rw [hstuck]
    exact hfed.observe_prevBits (bit t) (bit t) (decide (t % 2 = 1))
  obtain ⟨hsame, hother⟩ := hfed.counts_eq
  have hsum : u32 (same t + other t) = same t + other t := by
    have h1 := hfed.inv.table_lt (decide (t % 2 = 1)) (bit t) (window t % 16384)
    have h2 := hfed.inv.table_lt (decide (t % 2 = 1)) (!bit t) (window t % 16384)
    rw [hsame] at h1
    rw [hother] at h2
    simp only [inmMaxCount] at h1 h2
    exact u32_of_lt (by omega)
  rw [HealthState.enterLoop, hselect, HealthState.updateProbability_eq, htable, hprev, hsame,
    hother, hsum, hstuck] at he
  subst he
  refine ⟨⟨?_, hfed.numBitsSampled_eq, hfed.expected⟩, ?_, rfl, rfl⟩
  · change u64 (hc.totalBits + 1) = t + 1
    rw [hfed.totalBits_eq, u64_of_lt (by omega)]
  · exact if_congr Nat.pos_iff_ne_zero.symm rfl rfl

end

/-- The checker after bit `t`. -/
def fedBit (t : ℕ) (hc : HealthState) : HealthState :=
  ((inmHealthCheckAddBit hc (bit t) (bit t) (decide (t % 2 = 1))).map Prod.snd).getD hc

/-- A bit of the register passes, and moves the meter. -/
lemma HealthState.Fed.addBit {q : ℚ} {t : ℕ} {hc : HealthState} (hfed : hc.Fed q t)
    (ht : t < 190976) (hlevel : hc.entropyLevel < 4294967000) :
    inmHealthCheckAddBit hc (bit t) (bit t) (decide (t % 2 = 1)) = some (true, fedBit t hc) ∧
      (fedBit t hc).Fed q (t + 1) ∧
      ∃ gain, Counts (okRate q) t hc.numBitsOfEntropy hc.entropyLevel
        (fedBit t hc).numBitsOfEntropy (fedBit t hc).entropyLevel gain := by
  have hselect : selectBit (bit t) (bit t) (decide (t % 2 = 1)) = bit t := by
    rw [selectBit, ite_self]
  obtain ⟨hstuck, hc', hadd, hmatched⟩ := hfed.addBit_matched ht
  obtain ⟨e, he⟩ : ∃ e, hc.enterLoop (bit t) (bit t) (decide (t % 2 = 1)) = e := ⟨_, rfl⟩
  obtain ⟨hobs, hprob, hentropy, hlevel₀⟩ := hfed.enterLoop ht he
  obtain ⟨gain, hle, hgain, p, hp, hlo, hhi⟩ := exists_gain (t := t) (by omega) hfed.inv.probability
  rw [← hprob] at hp
  have hsmall := hfed.entropy_le
  -- the loop goes through `gain` rounds
  have hloop : doublingLoop doublingFuel e = some (HealthState.countBit^[gain] e) :=
    doublingLoop_eq hp (by simp only [doublingFuel]; omega) hlo hhi
  have heq : hc' = (HealthState.countBit^[gain] e).finishBit (bit t) (decide (t % 2 = 1)) := by
    rcases inmHealthCheckAddBit_returned hadd with ⟨hok, -⟩ | ⟨-, -, hc₁, hloop₁, rfl⟩
    · cases hok
    · rw [he, hloop] at hloop₁
      cases hloop₁
      rw [hselect]
  have hfed' : fedBit t hc = hc' := by
    rw [fedBit, hadd]
    rfl
  have hentropy' : (HealthState.countBit^[gain] e).numBitsOfEntropy = hc.numBitsOfEntropy + gain := by
    rw [HealthState.countBit_iterate_entropy (by omega), hentropy]
  obtain ⟨hexpected, hkept, hafter⟩ := (hobs.countBit_iterate gain).finishBit hentropy' (bit t)
    (decide (t % 2 = 1))
  obtain ⟨hle₁, hle₂, heq₃⟩ := HealthState.countBit_iterate_level (e := e) (k := gain) (by omega)
  rw [← heq] at hexpected hkept hafter
  rw [hfed']
  refine ⟨hadd, ⟨hmatched, hexpected, hfed.le_expected, hfed.expected_le, ?_, ?_⟩, gain, hgain,
    hafter, ?_, ?_, ?_⟩
  · rw [hafter]
    exact hfed.bounds.step hgain ht
  · rw [hafter, entropyAfter]
    split_ifs <;> omega
  · rw [hkept]
    omega
  · rw [hkept]
    omega
  · intro ht' hlow hhigh
    rw [hkept, heq₃ fun i hi => ?_, hlevel₀]
    -- in the loop the entropy is above that of the state before by at most the gain
    have hcounted := hobs.countBit_iterate (i + 1)
    have hentropy'' := HealthState.countBit_iterate_entropy (e := e) (k := i + 1) (by omega)
    have hi0 : (0 : ℚ) ≤ i := Nat.cast_nonneg i
    have hi2 : (i : ℚ) + 1 ≤ 2 := by exact_mod_cast (by omega : i + 1 ≤ 2)
    rw [excess] at hlow hhigh
    refine okToUseData_of_excess hcounted.expected hcounted.numBitsSampled_eq (le_samples ht')
      (samples_lt t) hfed.le_expected hfed.expected_le (by rw [hcounted.totalBits_eq]; omega) ?_ ?_
    · rw [hentropy'', hentropy]
      push_cast
      linarith
    · rw [hentropy'', hentropy]
      push_cast
      linarith

/-! ### Many bits -/

/-- The checker after `k` bits of the register from bit `t` on. -/
def fedBits (t : ℕ) (hc : HealthState) : ℕ → HealthState
  | 0 => hc
  | k + 1 => fedBit (t + k) (fedBits t hc k)

@[simp] lemma fedBits_zero (t : ℕ) (hc : HealthState) : fedBits t hc 0 = hc := rfl

lemma HealthState.Fed.bits {q : ℚ} {t : ℕ} {hc : HealthState} (hfed : hc.Fed q t)
    (hlevel : hc.entropyLevel = 0) {k : ℕ} (hk : t + k ≤ 190976) :
    (fedBits t hc k).Fed q (t + k) ∧ (fedBits t hc k).entropyLevel ≤ 2 * k := by
  induction k with
  | zero => exact ⟨hfed, hlevel.le⟩
  | succ k ih =>
    obtain ⟨hfed', hle⟩ := ih (by omega)
    obtain ⟨_, hnext, gain, hcounts⟩ := hfed'.addBit (by omega) (by omega)
    have hgain := hcounts.gain_of.le_two (by omega)
    have hle' := hcounts.level_le_add
    exact ⟨hnext, by rw [fedBits]; omega⟩

/-- A block moves the meter. -/
lemma HealthState.Fed.path {q : ℚ} {j : ℕ} {hc : HealthState} (hfed : hc.Fed q (512 * j))
    (hlevel : hc.entropyLevel = 0) (hj : j < 373) :
    Path (okRate q) j (fun k => (fedBits (512 * j) hc k).numBitsOfEntropy)
      fun k => (fedBits (512 * j) hc k).entropyLevel := by
  intro k hk
  obtain ⟨hfed', hle⟩ := hfed.bits hlevel (k := k) (by omega)
  exact (hfed'.addBit (by omega) (by omega)).2.2

end Userspace
