import Infnoise.Kernel.Delivery
import Infnoise.Kernel.EntropyOnly
import Infnoise.Kernel.Progress
import Infnoise.Kernel.Surprise

/-!
# How improbable a block is

The gate on the entropy of a block compares a level with 437 bits. What the level says of the block
is how probable its samples were, one after the other, as the tables had it. A block whose bytes are
used had a probability of at most `2 ^ -389`: between the two numbers are the roundings of the
fixed-point arithmetic, which are worst for the rarest samples.
-/

namespace Kernel

open Core

attribute [local irreducible] infnoiseKeccakPermutation infnoiseKeccakAbsorb

/-- The probability of the samples of a run, each as the tables have it when it comes. -/
def likelihood (cs : List (Call Health Sample Bool)) : ℚ :=
  (cs.map fun c => c.before.frequency c.input).prod

/-! ### One sample -/

/-- A call that counts few bits rounds little, and one that counts many rounds at most three bits in
28. -/
lemma logb_rounding_le {k : ℕ} (hk : k ≤ 15) :
    Real.logb 2 (rounding k) ≤ 3 / 28 * k + 2 ^ (-13 : ℤ) := by
  have hpos : (0 : ℝ) < rounding k := by exact_mod_cast rounding_pos k
  rcases Nat.eq_zero_or_pos k with rfl | hk'
  · have hlog := Real.log_le_sub_one_of_pos hpos
    have hhalf : (0.5 : ℝ) ≤ Real.log 2 := le_trans (by norm_num) Real.log_two_gt_d9.le
    rw [Real.logb, div_le_iff₀ (by linarith)]
    norm_num [rounding] at hlog ⊢
    linarith
  · have hpow : (rounding k : ℝ) ^ 28 ≤ 2 ^ (3 * k) := by
      have hrat : rounding k ^ 28 ≤ 2 ^ (3 * k) := by
        interval_cases k <;> norm_num [rounding]
      exact_mod_cast hrat
    have hlog := Real.logb_le_logb_of_le one_lt_two (pow_pos hpos 28) hpow
    rw [Real.logb_pow, Real.logb_pow, Real.logb_self_eq_one one_lt_two] at hlog
    have hsmall : (0 : ℝ) ≤ 2 ^ (-13 : ℤ) := by positivity
    push_cast at hlog
    linarith

section

variable {h h' : Health} {x : Sample}

/-- The level goes up by the surprise of a sample, or by a little more. -/
lemma Health.Passed.level_le_surprise (hp : h.Passed x h') (hinv : h.Inv)
    (hlt : h.entropyLevel + h.bitsCounted x < 4294967296) :
    (25 / 28 * h'.entropyLevel + Core.surprise h'.reading.prob : ℝ) ≤
      25 / 28 * h.entropyLevel + Core.surprise h.reading.prob +
        (Core.surprise (h.frequency x) + 2 ^ (-13 : ℤ)) := by
  obtain ⟨f, hf, -, hupper, hprob⟩ := hp.exists_factor hinv
  have hpos : 0 < h.reading.prob := lt_trans (by norm_num) hinv.prob_mem.1
  have hround := logb_rounding_le hp.bitsCounted_le
  have hlevel : (h'.entropyLevel : ℝ) ≤ h.entropyLevel + h.bitsCounted x := by
    have hle : h'.entropyLevel ≤ h.entropyLevel + h.bitsCounted x := by
      rw [hp.level hlt]
      split_ifs
      · exact le_rfl
      · exact Nat.le_add_right _ _
    exact_mod_cast hle
  rw [hprob, surprise_mul_two_pow hpos hf]
  linarith

/-- When the data may be used, the level goes up by the surprise of a sample, or by more. -/
lemma Health.Passed.surprise_le_level (hp : h.Passed x h') (hinv : h.Inv)
    (hlt : h.entropyLevel + h.bitsCounted x < 4294967296) (hok : h.okToUse = true) :
    (h.entropyLevel + Core.surprise h.reading.prob + Core.surprise (h.frequency x) : ℝ) ≤
      h'.entropyLevel + Core.surprise h'.reading.prob := by
  obtain ⟨f, hf, hlower, -, hprob⟩ := hp.exists_factor hinv
  have hpos : 0 < h.reading.prob := lt_trans (by norm_num) hinv.prob_mem.1
  rw [hprob, surprise_mul_two_pow hpos hf, hp.level hlt, if_pos hok]
  push_cast
  linarith

end

/-! ### The samples of a block -/

section

variable {h h' : Health} {cs : List (Call Health Sample Bool)}

/-- Each call of a run that is not too long has passed, and its level does not wrap. -/
lemma passed_of_run (hrun : Run Health.addBit h cs h') (hinv : h.Inv)
    (htrue : ∀ c ∈ cs, c.output = true) (hlt : h.entropyLevel + 15 * cs.length < 4294967296) :
    h'.Inv ∧ ∀ c ∈ cs, c.before.Inv ∧ c.before.Passed c.input c.after ∧
      c.before.entropyLevel + c.before.bitsCounted c.input < 4294967296 := by
  induction hrun with
  | nil => exact ⟨hinv, by simp⟩
  | @cons h h₁ h' x ok cs hadd _ ih =>
    rw [List.length_cons] at hlt
    obtain rfl : ok = true := htrue _ List.mem_cons_self
    rcases Health.addBit_outcome hinv hadd with ⟨hfalse, _⟩ | ⟨_, hp⟩
    · cases hfalse
    have hfew := hp.bitsCounted_le
    have hlevel := hp.level (by omega)
    have hle : h₁.entropyLevel ≤ h.entropyLevel + 15 := by
      rw [hlevel]
      split_ifs <;> omega
    obtain ⟨hinv', hrest⟩ := ih hp.inv (fun c hc => htrue c (List.mem_cons_of_mem _ hc)) (by omega)
    refine ⟨hinv', List.forall_mem_cons.mpr ⟨⟨hinv, hp, ?_⟩, hrest⟩⟩
    dsimp only
    omega

/-- The level of a block, and its probability. -/
lemma level_likelihood (hrun : Run Health.addBit h cs h') (hinv : h.Inv)
    (hzero : h.entropyLevel = 0) (htrue : ∀ c ∈ cs, c.output = true) (hlen : cs.length = 512) :
    h'.entropyLevel ≤ 7680 ∧
      (437 ≤ h'.entropyLevel → likelihood cs ≤ 1 / 2 ^ 389) ∧
      ((∀ c ∈ cs, c.before.okToUse = true) → likelihood cs ≤ 1 / 2 ^ 438 →
        437 ≤ h'.entropyLevel) := by
  have hfreq : ∀ c : Call Health Sample Bool, (0 : ℝ) < c.before.frequency c.input :=
    fun c => by exact_mod_cast c.before.frequency_pos c.input
  have hcast : ((likelihood cs : ℚ) : ℝ) =
      (cs.map fun c => (c.before.frequency c.input : ℝ)).prod := by
    rw [likelihood, Rat.cast_list_prod, List.map_map]
    rfl
  have hpos : (0 : ℝ) < likelihood cs := by
    rw [hcast]
    exact List.prod_pos (List.forall_mem_map.mpr fun c _ => hfreq c)
  obtain ⟨hinv', hcalls⟩ := passed_of_run hrun hinv htrue (by omega)
  refine ⟨?_, fun hlevel => ?_, fun hok hsmall => ?_⟩
  · have hle := (level_of_checked hinv ⟨cs, hrun, rfl, htrue⟩ (by simp [hzero, hlen])).2
    simpa [hzero, hlen] using hle
  · have hlt := hrun.lt_surprise (fun h => 25 / 28 * (h.entropyLevel : ℝ))
      (fun h => h.reading.prob) hfreq hinv.prob_mem hinv'.prob_mem fun c hc =>
        (hcalls c hc).2.1.level_le_surprise (hcalls c hc).1 (hcalls c hc).2.2
    have hlevel : (437 : ℝ) ≤ h'.entropyLevel := by exact_mod_cast hlevel
    rw [← hcast, hlen, hzero] at hlt
    have hle : (389 : ℕ) ≤ surprise (likelihood cs) := by
      norm_num at hlt ⊢
      linarith
    exact (Rat.cast_le (K := ℝ)).mp (by simpa using le_of_le_surprise hpos hle)
  · have hlt := hrun.surprise_lt (fun h => (h.entropyLevel : ℝ)) (fun h => h.reading.prob) hfreq
      hinv.prob_mem hinv'.prob_mem fun c hc =>
        (hcalls c hc).2.1.surprise_le_level (hcalls c hc).1 (hcalls c hc).2.2 (hok c hc)
    have hreal : (likelihood cs : ℝ) ≤ 1 / 2 ^ 438 := by
      simpa using (Rat.cast_le (K := ℝ)).mpr hsmall
    have hle := le_surprise_of_le hpos hreal
    rw [← hcast, hzero] at hlt
    have hlevel : (437 : ℝ) < h'.entropyLevel := by
      push_cast at hle hlt
      linarith
    exact_mod_cast hlevel.le

end

/-! ### The blocks of a run -/

/-- The samples of the attempt that succeeds in a call, checked one after the other. -/
structure ReadRecord.Checks (r : ReadRecord) (cs : List (Call Health Sample Bool)) (h : Health) :
    Prop where
  extraction : ∃ dev inBuf,
    lastExtraction r.input.scripts infnoiseMaxRetries r.before = some (dev, inBuf) ∧
      Run Health.addBit (infnoiseHealthClearEntropy dev.health) cs h ∧
      cs.map Call.input = samplesOf inBuf infnoiseBytesOut
  passed : ∀ c ∈ cs, c.output = true

lemma lastExtraction_inv {scripts : ℕ → AttemptScript} {retries : ℕ} {dev dev₀ : Device}
    {inBuf : ℕ → Byte} (hinv : dev.health.Inv)
    (h : lastExtraction scripts retries dev = some (dev₀, inBuf)) : dev₀.health.Inv := by
  induction retries generalizing dev with
  | zero => cases h
  | succ retries ih =>
    obtain ⟨ret, dev₁, honce, hinv₁⟩ := infnoiseUsbTransferOnce_returns hinv
      (scripts (infnoiseMaxRetries - (retries + 1)))
    simp only [lastExtraction, honce] at h
    rcases ret with e | n
    · obtain ⟨_, _, hhealth, _⟩ := afterAttempt_cases dev₁
        (scripts (infnoiseMaxRetries - (retries + 1))) (.error e)
      rcases hafter : afterAttempt dev₁ (scripts (infnoiseMaxRetries - (retries + 1))) (.error e)
        with ⟨_ | ret, dev₂⟩
      · simp only [hafter] at h hhealth
        exact ih (hhealth ▸ hinv₁) h
      · simp only [hafter] at h
        cases h
    · cases h
      exact hinv

/-- What is known of the samples of a call. -/
lemma ReadRecord.Checks.level {r : ReadRecord} {cs : List (Call Health Sample Bool)} {h : Health}
    (hchecks : r.Checks cs h) (hinv : r.before.health.Inv) :
    infnoiseHealthGetEntropy h ≤ 7680 ∧
      (437 ≤ infnoiseHealthGetEntropy h → likelihood cs ≤ 1 / 2 ^ 389) ∧
      ((∀ c ∈ cs, c.before.okToUse = true) → likelihood cs ≤ 1 / 2 ^ 438 →
        437 ≤ infnoiseHealthGetEntropy h) := by
  obtain ⟨dev, inBuf, hlast, hrun, hin⟩ := hchecks.extraction
  have hlen : cs.length = 512 := by
    rw [← List.length_map (f := Call.input), hin, samplesOf_length]
    rfl
  exact level_likelihood hrun (infnoiseHealthClearEntropy_inv (lastExtraction_inv hinv hlast)) rfl
    hchecks.passed hlen

end Kernel
