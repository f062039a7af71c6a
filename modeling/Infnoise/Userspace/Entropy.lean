import Infnoise.Core.Binary64
import Infnoise.Userspace.ReadData

/-!
# The entropy of a block in userspace

The bound that `processBytes` puts on the entropy of a block, and the target that a block has to
meet, are computed in `double` from `expectedEntropyPerBit`, the quotient of two logarithms. As
integers they are 437 bits, both of them.
-/

namespace Userspace

open Core Core.Binary64

/-- What the code relies on from the mathematical library: the quotient is the binary logarithm of
1.84, which is 0.87970…, to four digits. -/
structure LogAccurate (log : Float → Float) : Prop where
  lower : 0.8797 ≤ log designK / log 2.0
  upper : log designK / log 2.0 ≤ 0.8798

/-- `log` of the two numbers the library takes it of. -/
def tableLog (x : Float) : Float := if x == designK then 0.6097655716208943 else 0.6931471805599453

lemma tableLog_accurate : LogAccurate tableLog where
  lower := by decide +kernel
  upper := by decide +kernel

/-! ### The numbers of the code -/

lemma isNormal_inmAccuracy : ∃ q, IsNormal inmAccuracy q ∧ 1.0299999 ≤ q ∧ q ≤ 1.0300001 :=
  ⟨_, isNormal_of_eq (m := 4638707616191611) (e := -52) (by norm_num) (by norm_num) (by norm_num)
    (by norm_num) (by norm_num) (by decide +kernel), by norm_num, by norm_num⟩

/-- The expected entropy of one bit. -/
lemma LogAccurate.bounds {log : Float → Float} (hlog : LogAccurate log) :
    ∃ q, IsNormal (log designK / log 2.0) q ∧ 0.8796 ≤ q ∧ q ≤ 0.8799 := by
  have hlo : IsNormal 0.8797 ((7923633184395651 : ℕ) * 2 ^ (-53 : ℤ)) :=
    isNormal_of_eq (by norm_num) (by norm_num) (by norm_num) (by norm_num) (by norm_num)
      (by decide +kernel)
  have hhi : IsNormal 0.8798 ((7924533904321125 : ℕ) * 2 ^ (-53 : ℤ)) :=
    isNormal_of_eq (by norm_num) (by norm_num) (by norm_num) (by norm_num) (by norm_num)
      (by decide +kernel)
  obtain ⟨q, hq, hlq, hqh⟩ := isNormal_of_le hlo hhi hlog.lower hlog.upper
  exact ⟨q, hq, le_trans (by norm_num) hlq, hqh.trans (by norm_num)⟩

/-- A health checker as `initInfnoise` starts it, with a library whose logarithm is accurate. -/
def HealthState.Started (hc : HealthState) : Prop :=
  ∃ q, IsNormal hc.expectedEntropyPerBit q ∧ 0.8796 ≤ q ∧ q ≤ 0.8799

lemma HealthState.Started.of_config {hc hc' : HealthState} (h : hc.Started)
    (hconfig : hc'.config = hc.config) : hc'.Started := by
  have hexpected : hc'.expectedEntropyPerBit = hc.expectedEntropyPerBit := by
    simp only [config, Prod.mk.injEq] at hconfig
    exact hconfig.2.2.1
  rw [Started, hexpected]
  exact h

/-! ### The cap -/

/-- The bound lies between 437 and 438. -/
lemma HealthState.Started.entropyCap {hc : HealthState} (h : hc.Started) :
    ∃ q, IsNormal (entropyCap hc) q ∧ 437.1 ≤ q ∧ q ≤ 437.5 := by
  obtain ⟨p, hp, hlow, hhigh⟩ := h
  obtain ⟨a, ha, halow, hahigh⟩ := isNormal_inmAccuracy
  have h512 : IsNormal (Float.ofNat buflen) 512 := isNormal_ofNat (by simp) (by simp)
  obtain ⟨r, hr, hrlow, hrhigh⟩ := hp.mul_near h512 (by norm_num at hlow ⊢; linarith)
    (by norm_num at hhigh ⊢; linarith)
  have hrlow' : 450.35 ≤ r := by
    norm_num at hrlow hlow ⊢
    linarith
  have hrhigh' : r ≤ 450.51 := by
    norm_num at hrhigh hhigh ⊢
    linarith
  have hapos := ha.pos
  have hdlow : 437.2 ≤ r / a := by
    rw [le_div_iff₀ hapos]
    norm_num at hahigh hrlow' ⊢
    linarith
  have hdhigh : r / a ≤ 437.4 := by
    rw [div_le_iff₀ hapos]
    norm_num at halow hrhigh' ⊢
    linarith
  obtain ⟨q, hq, hqlow, hqhigh⟩ := hr.div_near ha (le_trans (by norm_num) hdlow)
    (hdhigh.trans (by norm_num))
  refine ⟨q, hq, ?_, ?_⟩
  · norm_num at hqlow hdlow ⊢
    linarith
  · norm_num at hqhigh hdhigh ⊢
    linarith

/-- `processBytes` leaves the lower of the measured entropy and 437 bits. -/
theorem Context.capEntropy_eq_min {context : Context} (h : context.health.Started)
    (hlt : context.entropyThisTime < 4294967296) :
    context.capEntropy.entropyThisTime = min context.entropyThisTime 437 := by
  obtain ⟨q, hq, hlow, hhigh⟩ := h.entropyCap
  have htrunc : (entropyCap context.health).toUInt32.toNat = 437 := by
    rw [hq.toUInt32 (hhigh.trans_lt (by norm_num)), Nat.floor_eq_iff (by linarith)]
    norm_num at hlow hhigh ⊢
    constructor <;> linarith
  rcases Nat.eq_zero_or_pos context.entropyThisTime with h0 | hpos
  · rw [capEntropy, if_neg (h0 ▸ hq.not_lt_zero), h0]
    rfl
  · have hn := isNormal_ofNat hpos (by omega)
    rw [capEntropy]
    split_ifs with hcap
    · rw [hq.lt_iff hn] at hcap
      have : 437 < context.entropyThisTime := by
        have : (437 : ℚ) < context.entropyThisTime := lt_of_le_of_lt (by linarith) hcap
        exact_mod_cast this
      rw [min_eq_right this.le]
      exact htrunc
    · rw [hq.lt_iff hn, not_lt] at hcap
      have : context.entropyThisTime < 438 := by
        have : (context.entropyThisTime : ℚ) < 438 := lt_of_le_of_lt hcap (by linarith)
        exact_mod_cast this
      exact (min_eq_left (by omega)).symm

/-! ### The target -/

/-- A block is on target with 437 bits or more. -/
theorem inmEntropyOnTarget_iff {hc : HealthState} (h : hc.Started) {entropy : ℕ}
    (hlt : entropy < 4294967296) : inmEntropyOnTarget hc entropy buflen = true ↔ 437 ≤ entropy := by
  obtain ⟨p, hp, hlow, hhigh⟩ := h
  obtain ⟨a, ha, halow, hahigh⟩ := isNormal_inmAccuracy
  have h512 : IsNormal (Float.ofNat buflen) 512 := isNormal_ofNat (by simp) (by simp)
  obtain ⟨r, hr, hrlow, hrhigh⟩ := h512.mul_near hp (by norm_num at hlow ⊢; linarith)
    (by norm_num at hhigh ⊢; linarith)
  have htrunc : (Float.ofNat buflen * hc.expectedEntropyPerBit).toUInt32.toNat = 450 := by
    have hrlow' : 450 ≤ r := by
      norm_num at hrlow hlow ⊢
      linarith
    have hrhigh' : r < 451 := by
      norm_num at hrhigh hhigh ⊢
      linarith
    rw [hr.toUInt32 (hrhigh'.trans (by norm_num)), Nat.floor_eq_iff (by linarith)]
    norm_num
    exact ⟨hrlow', hrhigh'⟩
  have h450 : IsNormal (Float.ofNat 450) 450 := isNormal_ofNat (by norm_num) (by norm_num)
  rw [inmEntropyOnTarget, htrunc, decide_eq_true_iff]
  rcases Nat.eq_zero_or_pos entropy with rfl | hpos
  · have hzero : ¬ Float.ofNat 450 < Float.ofNat 0 * inmAccuracy := by decide +kernel
    simp [hzero]
  · have hn := isNormal_ofNat hpos (by omega)
    have hnq : (1 : ℚ) ≤ entropy := by exact_mod_cast hpos
    have hnq' : (entropy : ℚ) < 4294967296 := by exact_mod_cast hlt
    obtain ⟨t, ht, htlow, hthigh⟩ := hn.mul_near ha (by norm_num at halow ⊢; nlinarith)
      (by norm_num at hahigh ⊢; nlinarith)
    rw [h450.lt_iff ht]
    norm_num at htlow hthigh halow hahigh
    constructor
    · intro h
      by_contra hsmall
      have : (entropy : ℚ) ≤ 436 := by exact_mod_cast (by omega : entropy ≤ 436)
      nlinarith
    · intro h
      have : (437 : ℚ) ≤ entropy := by exact_mod_cast h
      nlinarith

/-- A block leaves the expected entropy as it is, and has a 32-bit entropy itself. -/
lemma Context.Block.started {context context' : Context} {script : UsbScript} {bytes : ℕ → Byte}
    (h : context.Block script true bytes context') (hstarted : context.health.Started) :
    context'.health.Started ∧ context'.entropyThisTime < 4294967296 := by
  obtain ⟨_, health, hconfig, rfl⟩ := h.cases
  exact ⟨hstarted.of_config hconfig.1, hconfig.2⟩

/-- A block that is used leaves 437 bits. -/
lemma ReadStep.entropy_of_accepted {context : Context} {script : UsbScript}
    {result : Option (ℕ → Byte)} {raw : Bool} {outputMultiplier : ℕ} {r : ReadResult}
    (h : ReadStep context script result raw outputMultiplier r) (hstarted : context.health.Started)
    (hacc : r.accepted = true) : r.context.entropyThisTime = 437 := by
  cases h with
  | usbFailed | late | unhealthy | rejected | chunk => cases hacc
  | @accepted bytes context' hblock hgood =>
    obtain ⟨hstarted', hlt⟩ := hblock.started hstarted
    rw [Context.accepts, Bool.and_eq_true] at hgood
    have htarget := (inmEntropyOnTarget_iff hstarted' hlt).mp hgood.2
    rw [Filled.toRead, (processBytes_keeps _ _ _ _ _).2, Context.capEntropy_eq_min hstarted' hlt]
    exact min_eq_right htarget

end Userspace
