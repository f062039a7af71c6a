import Infnoise.Kernel.Extraction
import Infnoise.Kernel.Stats

/-!
# The gate on the entropy of a block

A sample is worth at most 15 bits of entropy, so the entropy of a block is far below what the 32-bit
products of `infnoise_health_entropy_on_target` hold, and the gate compares integers.
-/

namespace Kernel

open Core

/-- The bits that a block is expected to have, in `infnoise_health_entropy_on_target`. -/
def expectedBits (numBits : ℕ) : ℕ :=
  fpMul (u32 (numBits <<< fpShift)) inmExpectedEntropyFp >>> fpShift

lemma expectedBits_buflen : expectedBits infnoiseBuflen = 450 := by decide

lemma samplesOf_length (inBuf : ℕ → Byte) (length : ℕ) :
    (samplesOf inBuf length).length = 8 * length := by
  rw [samplesOf, List.length_map, List.length_range]

/-- The entropy that an extraction returns. -/
lemma infnoiseExtractBytes_entropy_le {dev dev' : Device} (hinv : dev.health.Inv)
    {length entropy : ℕ} (hlength : length ≤ 64) {inBuf : ℕ → Byte}
    (h : infnoiseExtractBytes dev length inBuf = some (.ok entropy, dev')) :
    dev'.health.Inv ∧ entropy ≤ 120 * length := by
  obtain ⟨hchecked, _, rfl⟩ := infnoiseExtractBytes_checked h
  have hzero : (infnoiseHealthClearEntropy dev.health).entropyLevel = 0 := rfl
  have hlevel := level_of_checked (infnoiseHealthClearEntropy_inv hinv) hchecked
    (by rw [hzero, samplesOf_length]; omega)
  rw [hzero, samplesOf_length] at hlevel
  exact ⟨hlevel.1, by omega⟩

/-- The gate on a block whose entropy is in the range of an extraction. -/
lemma entropyOnTarget_iff {entropy : ℕ} (hle : entropy ≤ 7680) :
    infnoiseHealthEntropyOnTarget entropy infnoiseBuflen = true ↔ 437 ≤ entropy := by
  have hexpected : u32 (expectedBits infnoiseBuflen <<< fpShift) = 29491200 := by
    rw [expectedBits_buflen]
    rfl
  have hproduct : u32 (entropy * 67502) = entropy * 67502 := u32_of_lt (by omega)
  change decide (u32 (entropy * 67502) ≥ u32 (expectedBits infnoiseBuflen <<< fpShift)) = true ↔ _
  rw [hexpected, hproduct, decide_eq_true_iff]
  omega

/-- In a health state that calls of the checker lead to, whatever device has it, an extraction of
64 bytes that succeeds returns at most 7680 bits. No product of the gate wraps, and the gate is
the comparison over the integers. -/
theorem entropyGate_exact {cs : List (Call Health HealthCall Bool)} {h : Health}
    (hrun : Run healthStep infnoiseHealthInit cs h) {dev dev' : Device} (hdev : dev.health = h)
    {inBuf : ℕ → Byte} {entropy : ℕ}
    (hextract : infnoiseExtractBytes dev infnoiseBytesOut inBuf = some (.ok entropy, dev')) :
    entropy ≤ 7680 ∧ entropy * inmAccuracyFp < 4294967296 ∧
      infnoiseBuflen <<< fpShift < 4294967296 ∧
      expectedBits infnoiseBuflen <<< fpShift = 450 * 65536 ∧
      (infnoiseHealthEntropyOnTarget entropy infnoiseBuflen = true ↔
        450 * 65536 ≤ entropy * inmAccuracyFp) ∧
      (infnoiseHealthEntropyOnTarget entropy infnoiseBuflen = true ↔ 437 ≤ entropy) := by
  have hinv : h.Inv := by
    refine (hrun.invariant (fun s i o s' hstep hs => ?_) infnoiseHealthInit_inv).2
    obtain ⟨r, hr, hinv⟩ := healthStep_returns hs i
    rw [hstep] at hr
    cases hr
    exact hinv
  have hle := (infnoiseExtractBytes_entropy_le (hdev ▸ hinv) (by decide) hextract).2
  have hle : entropy ≤ 7680 := hle
  have htarget := entropyOnTarget_iff hle
  refine ⟨hle, ?_, by decide, by rw [expectedBits_buflen]; rfl, ?_, htarget⟩
  · simp only [inmAccuracyFp]
    omega
  · rw [htarget]
    simp only [inmAccuracyFp]
    omega

/-! ### A block after the warm-up -/

lemma Health.Takes.exists_run {h h' : Health} {n : ℕ} (ht : h.Takes n h') :
    ∃ cs, Run healthStep h cs h' := by
  induction ht with
  | refl => exact ⟨[], .nil h⟩
  | @clear _ h'' _ ih =>
    obtain ⟨cs, hcs⟩ := ih
    have hcall : healthStep h'' .clearEntropy = some (true, infnoiseHealthClearEntropy h'') := rfl
    exact ⟨_, hcs.append (.single hcall)⟩
  | @sample _ _ _ x ok _ hadd ih =>
    obtain ⟨cs, hcs⟩ := ih
    have hcall : healthStep _ (.addBit x.evenBit x.oddBit x.even) = some (ok, _) := hadd
    exact ⟨_, hcs.append (.single hcall)⟩

/-- A run of the driver makes calls of the checker. -/
lemma exists_run_health {d d' : Driver} {cs : List DriverRecord} (h : Run Driver.step d cs d') :
    ∃ hs, Run healthStep d.dev.health hs d'.dev.health := by
  have hstep : ∀ (s : Driver) (a : Action) (o : Output) (s' : Driver), s.step a = some (o, s') →
      (∃ hs, Run healthStep d.dev.health hs s.dev.health) →
        ∃ hs, Run healthStep d.dev.health hs s'.dev.health := by
    rintro s a o s' hcall ⟨hs, hhs⟩
    obtain ⟨_, _, htakes⟩ := step_takes hcall
    obtain ⟨hs', hhs'⟩ := htakes.exists_run
    exact ⟨_, hhs.append hhs'⟩
  exact (h.invariant hstep ⟨[], .nil _⟩).2

/-- The block after the warm-up passes the gate. -/
theorem entropyGate_exact_warm : ∃ (cs : List DriverRecord) (d : Driver) (t : ℕ) (dev' : Device)
    (entropy : ℕ), Run Driver.step probed cs d ∧ d.warmupDone = true ∧
      infnoiseExtractBytes d.dev infnoiseBytesOut
        (fun k => sampleOf (ShiftRegister.bit (t + k))) = some (.ok entropy, dev') ∧
      infnoiseHealthEntropyOnTarget entropy infnoiseBuflen = true ∧
      437 ≤ entropy ∧ entropy ≤ 7680 ∧ 450 * 65536 ≤ entropy * inmAccuracyFp := by
  obtain ⟨j, dev, cs, h157, h372, hwarming, hok, hwarm, -⟩ := exists_warmed
  obtain ⟨hs, hhs⟩ := exists_run_health hwarm.1
  obtain ⟨dev', hextract⟩ := infnoiseExtractBytes_fed hwarming.fed (by omega)
  have htarget := (Bool.and_eq_true_iff.mp (hwarming.good h157 h372 hok)).2
  obtain ⟨hle, -, -, -, hgate, hleast⟩ := entropyGate_exact hhs rfl hextract
  exact ⟨cs, _, 512 * j, dev', _, hwarm.1, rfl, hextract, htarget, hleast.mp htarget, hle,
    hgate.mp htarget⟩

end Kernel
