import Infnoise.Kernel.Stats
import Mathlib.Analysis.Complex.ExponentialBounds
import Mathlib.Analysis.SpecialFunctions.Pow.Real

/-!
# The gain that is reported

`infnoise_health_estimate_k` is to be `2 ^ entropy`, and computes a line. Where the health check
holds, the line is close enough.
-/

namespace Kernel

open Core

attribute [local irreducible] infnoiseKeccakPermutation infnoiseKeccakAbsorb

/-! ### The line and the power -/

/-- A power of two is above its tangents. -/
lemma rpow_tangent_le (x y : ℝ) : 2 ^ x * (1 + Real.log 2 * (y - x)) ≤ (2 : ℝ) ^ y := by
  have hexp : (2 : ℝ) ^ (y - x) = Real.exp (Real.log 2 * (y - x)) :=
    Real.rpow_def_of_pos two_pos _
  have hle := Real.add_one_le_exp (Real.log 2 * (y - x))
  calc (2 : ℝ) ^ x * (1 + Real.log 2 * (y - x)) ≤ 2 ^ x * 2 ^ (y - x) := by
        rw [hexp, add_comm]
        exact mul_le_mul_of_nonneg_left hle (Real.rpow_nonneg zero_le_two x)
    _ = 2 ^ y := by rw [← Real.rpow_add two_pos, add_sub_cancel]

/-- The power at the lower end of the range. -/
lemma le_rpow_lower : (1.8076 : ℝ) ≤ 2 ^ (41 / 48 : ℝ) := by
  refine le_of_pow_le_pow_left₀ (n := 48) (by norm_num) (by positivity) ?_
  rw [← Real.rpow_natCast, ← Real.rpow_natCast, ← Real.rpow_mul zero_le_two]
  norm_num

/-- The power at the upper end of the range. -/
lemma rpow_upper_le : (2 : ℝ) ^ (10 / 11 : ℝ) ≤ 1.878 := by
  refine le_of_pow_le_pow_left₀ (n := 11) (by norm_num) (by positivity) ?_
  rw [← Real.rpow_natCast, ← Real.rpow_natCast, ← Real.rpow_mul zero_le_two]
  norm_num

/-- Between the ends, the line is close to the power: the difference grows, from one end to the
other. -/
lemma line_near_rpow {x : ℝ} (hlow : 41 / 48 ≤ x) (hhigh : x ≤ 10 / 11) :
    2 ^ x ≤ 1.0069 + 62806 / 65536 * x ∧ 0.9889 + 62806 / 65536 * x ≤ 2 ^ x := by
  have hlog : (0.693 : ℝ) ≤ Real.log 2 := le_trans (by norm_num) Real.log_two_gt_d9.le
  have hlower := le_rpow_lower
  have hupper := rpow_upper_le
  have hbelow := rpow_tangent_le (41 / 48) x
  have habove := rpow_tangent_le x (10 / 11)
  have hslope : 0.693 * (x - 41 / 48) ≤ Real.log 2 * (x - 41 / 48) :=
    mul_le_mul_of_nonneg_right hlog (by linarith)
  have hslope' : 0.693 * (10 / 11 - x) ≤ Real.log 2 * (10 / 11 - x) :=
    mul_le_mul_of_nonneg_right hlog (by linarith)
  have hfirst : 1.8076 * (1 + 0.693 * (x - 41 / 48)) ≤ (2 : ℝ) ^ x :=
    le_trans (mul_le_mul hlower (by linarith) (by linarith) (by linarith)) hbelow
  have hsecond : (2 : ℝ) ^ x * (1 + 0.693 * (10 / 11 - x)) ≤ 1.878 := by
    refine le_trans (mul_le_mul_of_nonneg_left (by linarith) ?_) (habove.trans hupper)
    exact Real.rpow_nonneg zero_le_two x
  have hlarge : (1.8 : ℝ) ≤ 2 ^ x := by linarith
  have hproduct : 1.8 * (0.693 * (10 / 11 - x)) ≤ (2 : ℝ) ^ x * (0.693 * (10 / 11 - x)) :=
    mul_le_mul_of_nonneg_right hlarge (by linarith)
  constructor
  · linarith
  · linarith

/-- The gain computed from an entropy in range. -/
lemma gain_near {entropy : ℕ} (h : EntropyInRange entropy) :
    |((fpOne + entropy * 62806 / fpOne : ℕ) : ℝ) / 65536 - 2 ^ ((entropy : ℝ) / 65536)| ≤ 0.012 := by
  have hlower : fpDiv inmExpectedEntropyFp inmAccuracyFp = 55991 := by decide
  have hupper : fpMul inmExpectedEntropyFp inmAccuracyFp = 59401 := by decide
  rw [EntropyInRange, hlower, hupper] at h
  have hlow : (55991 : ℝ) ≤ entropy := by exact_mod_cast h.1
  have hhigh : (entropy : ℝ) ≤ 59401 := by exact_mod_cast h.2
  obtain ⟨habove, hbelow⟩ := line_near_rpow (x := entropy / 65536) (by linarith) (by linarith)
  have hdiv : entropy * 62806 / 65536 * 65536 ≤ entropy * 62806 ∧
      entropy * 62806 < (entropy * 62806 / 65536 + 1) * 65536 := by omega
  have hfloor : ((entropy * 62806 / 65536 : ℕ) : ℝ) * 65536 ≤ entropy * 62806 := by
    exact_mod_cast hdiv.1
  have hceil : (entropy * 62806 : ℝ) < ((entropy * 62806 / 65536 : ℕ) + 1) * 65536 := by
    exact_mod_cast hdiv.2
  rw [abs_le, fpOne, Nat.cast_add]
  push_cast at hfloor hceil ⊢
  constructor
  · linarith
  · linarith

/-! ### Snapshots -/

/-- In every run of a device from its probe on, whatever it sends: a copy of the statistics that
says that the device is healthy has a gain within 0.012 of the power of two that its entropy
stands for. -/
theorem reported_gain_near {clockBuf usbBuf readBuf outBuf : ℕ → Byte} {multiplier : ℕ}
    {rawMode : Bool} {d : Driver} {cs : List DriverRecord}
    (h : Run Driver.step (infnoiseProbe clockBuf usbBuf readBuf outBuf multiplier rawMode) cs d) :
    ∀ stats ∈ snapshots cs, stats.healthOk = true →
      |(stats.kEstimate : ℝ) / 65536 - 2 ^ ((stats.entropyEstimate : ℝ) / 65536)| ≤ 0.012 := by
  intro stats hstats hok
  obtain ⟨c, hc, hsnapshot⟩ := List.mem_filterMap.mp hstats
  obtain rfl := DriverRecord.snapshot_eq hsnapshot
  have hstep : ∀ (s : Driver) (a : Action) (o : Output) (s' : Driver), s.step a = some (o, s') →
      (∃ n, s.dev.health.Counted n) → ∃ n, s'.dev.health.Counted n := by
    rintro s a o s' hcall ⟨n, hn⟩
    obtain ⟨k, -, htakes⟩ := step_takes hcall
    exact ⟨n + k, hn.takes htakes⟩
  obtain ⟨n, hn⟩ := ((h.invariant hstep ⟨0, infnoiseHealthInit_counted⟩).1 c hc).1
  rw [show (infnoiseHealthGetStats c.before.dev.health).kEstimate = _ from hn.inv.estimateK_eq]
  exact gain_near (hn.verdict hok).2

/-- The statistics are read after the warm-up. -/
theorem reported_gain_near_warm : ∃ (cs : List DriverRecord) (d : Driver) (stats : InfnoiseStats),
    Run Driver.step probed cs d ∧ stats ∈ snapshots cs ∧ stats.healthOk = true ∧
      |(stats.kEstimate : ℝ) / 65536 - 2 ^ ((stats.entropyEstimate : ℝ) / 65536)| ≤ 0.012 := by
  obtain ⟨cs, d, stats, stats', hrun, -, hcopies, hok, -⟩ := exists_run_copies
  have hmem : stats ∈ snapshots cs := hcopies ▸ List.mem_cons_self
  exact ⟨cs, d, stats, hrun, hmem, hok, reported_gain_near hrun stats hmem hok⟩

end Kernel
