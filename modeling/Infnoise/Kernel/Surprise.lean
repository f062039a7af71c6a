import Infnoise.Core.Surprise
import Infnoise.Kernel.Estimate

/-!
# What the fixed-point count measures

`num_bits_of_entropy` follows a gauge of the surprise of the samples over whole runs, with the
halvings at the end of each window and after calls that reported a fault. The fixed-point
arithmetic rounds down, so no surprise is missed; what it counts too much is at most the rounding
of each call.
-/

namespace Kernel

open Core

variable {h h' : Health}

/-- What a gauge is compared with. -/
noncomputable def Health.reading (h : Health) : Reading :=
  ⟨h.numBitsSampled, h.numBitsOfEntropy, h.currentProb / 65536⟩

lemma Health.frequency_pos (h : Health) (x : Sample) : 0 < h.frequency x := by
  simp only [frequency]
  split_ifs with hzero
  · exact one_pos
  · have hpos := Nat.pos_of_ne_zero hzero
    positivity

/-- Two roundings down give no more than the product with the frequency. -/
lemma fpMul_fpDiv_le {p c o : ℕ} (hp : p ≤ fpOne) (hc : 0 < c) (hc' : c < inmMaxCount)
    (ho : o < inmMaxCount) : (fpMul p (fpDiv c (c + o)) : ℚ) ≤ p * (c / (c + o)) := by
  obtain ⟨hexact, _, hle⟩ := fpDiv_bounds hc hc' ho
  have htotal : (0 : ℚ) < c + o := by positivity
  rw [fpMul_eq (fpMulExact_of_le hp hle), fpDiv_eq (by omega) hexact]
  have hdiv : ((c * 65536 / (c + o) : ℕ) : ℚ) ≤ c * 65536 / (c + o) := by
    refine Nat.cast_div_le.trans_eq ?_
    push_cast
    rfl
  generalize c * 65536 / (c + o) = f at hdiv
  have hmul : ((p * f / 65536 : ℕ) : ℚ) ≤ p * f / 65536 := by
    refine Nat.cast_div_le.trans_eq ?_
    push_cast
    rfl
  calc ((p * f / 65536 : ℕ) : ℚ) ≤ p * f / 65536 := hmul
    _ ≤ p * (c * 65536 / (c + o)) / 65536 := by gcongr
    _ = p * (c / (c + o)) := by ring

/-- The probability that enters the loop is not above the product with the frequency. -/
lemma Health.Inv.prediction_le (hinv : h.Inv) (x : Sample) :
    (((h.check x).2.updateProb x.bit x.even).currentProb : ℚ) ≤
      h.currentProb * h.frequency x := by
  rw [hinv.prediction_eq x (h.observe_prevBits x.evenBit x.oddBit x.even).symm rfl rfl, frequency]
  split_ifs with hzero
  · rw [mul_one]
  · exact fpMul_fpDiv_le hinv.currentProb_le (Nat.pos_of_ne_zero hzero)
      (hinv.table_lt _ _ _) (hinv.table_lt _ _ _)

/-- The probability is more than one half between the calls. -/
lemma Health.Inv.prob_mem (hinv : h.Inv) :
    1 / 2 < h.reading.prob ∧ h.reading.prob ≤ 1 := by
  have hgt : (32768 : ℝ) < h.currentProb := by exact_mod_cast hinv.currentProb_gt
  have hle : (h.currentProb : ℝ) ≤ 65536 := by exact_mod_cast hinv.currentProb_le
  constructor
  · simp only [reading]
    linarith
  · simp only [reading]
    linarith

/-- What a call that passes multiplies the probability with, before it doubles it: the frequency of
its sample, up to rounding. -/
lemma Health.Passed.exists_factor {x : Sample} (hp : h.Passed x h') (hinv : h.Inv) :
    ∃ f : ℝ, 0 < f ∧ surprise (h.frequency x) ≤ surprise f ∧
      surprise f ≤ surprise (h.frequency x) + Real.logb 2 (rounding (h.bitsCounted x)) ∧
      h'.reading.prob = h.reading.prob * f * 2 ^ h.bitsCounted x := by
  have hgt := hp.inv.currentProb_gt
  have hbefore := hinv.currentProb_gt
  have heq := hp.prob_eq
  have hbelow := hinv.prediction_le x
  have hbound := hp.bound hinv
  generalize ((h.check x).2.updateProb x.bit x.even).currentProb = e at heq hbelow
  simp only [fpHalf] at hgt hbefore
  have hepos : 0 < e := by
    refine Nat.pos_of_ne_zero fun hzero => ?_
    rw [hzero, Nat.zero_mul] at heq
    omega
  have he : (0 : ℝ) < e := Nat.cast_pos.mpr hepos
  have hprob : (0 : ℝ) < h.currentProb := Nat.cast_pos.mpr (by omega)
  have hfreq : (0 : ℝ) < h.frequency x := by exact_mod_cast h.frequency_pos x
  have hround : (0 : ℝ) < rounding (h.bitsCounted x) := by exact_mod_cast rounding_pos _
  -- in units of the probability, the factor of the call is between these two
  have hhigh : (e : ℝ) / h.currentProb ≤ h.frequency x := by
    rw [div_le_iff₀ hprob, mul_comm]
    exact_mod_cast hbelow
  have hlow : (h.frequency x : ℝ) ≤ e / h.currentProb * rounding (h.bitsCounted x) := by
    have hbits : (2 : ℚ) ^ h.bitsCounted x * (h.currentProb * h.frequency x) ≤
        2 ^ h.bitsCounted x * (e * rounding (h.bitsCounted x)) := by
      refine hbound.trans_eq ?_
      rw [heq]
      push_cast
      ring
    have hle : (h.currentProb : ℚ) * h.frequency x ≤ e * rounding (h.bitsCounted x) :=
      le_of_mul_le_mul_left hbits (by positivity)
    rw [div_mul_eq_mul_div, le_div_iff₀ hprob, mul_comm]
    exact_mod_cast hle
  refine ⟨e / h.currentProb, div_pos he hprob, surprise_le_of_le (div_pos he hprob) hhigh, ?_, ?_⟩
  · have hle := surprise_le_of_le hfreq hlow
    rw [surprise_mul (div_pos he hprob) hround] at hle
    simp only [surprise] at hle ⊢
    linarith
  · simp only [reading, heq]
    push_cast
    field_simp

/-- A call that passes counts the surprise of its sample, and what it rounds. -/
lemma Health.Passed.counts_surprise {x : Sample} (hp : h.Passed x h') (hinv : h.Inv) :
    h.reading.Counts inmMinData (surprise (h.frequency x)) 0
      (Real.logb 2 (rounding (h.bitsCounted x))) h'.reading := by
  obtain ⟨hhalf, hone⟩ := hp.inv.prob_mem
  obtain ⟨f, hf, hlower, hupper, hprob⟩ := hp.exists_factor hinv
  obtain ⟨_, _, hsampled, hcounted⟩ := hp.counters hinv
  refine ⟨hhalf, hone, f, h.bitsCounted x, hf, (add_zero _).trans_le hlower, hupper, hprob, ?_⟩
  simp only [reading, inmMinData, hsampled, hcounted]
  split_ifs with hfull
  · exact ⟨by rw [hfull], rfl⟩
  · exact ⟨rfl, rfl⟩

/-- A call counts the surprise of its sample, unless it reports a fault. -/
lemma Health.Inv.addBit_counts (hinv : h.Inv) {x : Sample} {ok : Bool}
    (hadd : h.addBit x = some (ok, h')) :
    h'.Inv ∧ (ok = false → h'.reading = h.reading) ∧
      (ok = true → h.reading.Counts inmMinData (surprise (h.frequency x)) 0
        (Real.logb 2 (rounding (h.bitsCounted x))) h'.reading) := by
  obtain ⟨r, hr, hinv'⟩ := Health.addBit_returns hinv x
  obtain rfl := Option.some.inj (hr.symm.trans hadd)
  rcases Health.addBit_outcome hinv hadd with ⟨rfl, -, heq⟩ | ⟨rfl, hp⟩
  · obtain ⟨_, _, _, _, hcheck⟩ := h.check_eq x
    rw [hcheck] at heq
    refine ⟨hinv', fun _ => ?_, fun hfalse => by cases hfalse⟩
    rw [heq]
    rfl
  · exact ⟨hinv', (fun hfalse => by cases hfalse), fun _ => hp.counts_surprise hinv⟩

/-- The gauges that a run from a fresh checker measures. -/
lemma run_measures {cs : List (Call Health Sample Bool)}
    (hrun : Run Health.addBit infnoiseHealthInit cs h) :
    h.reading.Measures inmMinData
      (Gauge.of inmMinData
        ((cs.filter Call.output).map fun c => surprise (c.before.frequency c.input)))
      (Gauge.of inmMinData ((cs.filter Call.output).map fun _ => 0))
      (Gauge.of inmMinData
        ((cs.filter Call.output).map fun c =>
          Real.logb 2 (rounding (c.before.bitsCounted c.input)))) := by
  have hread : infnoiseHealthInit.reading = ⟨0, 0, 1⟩ := by
    simp [Health.reading, infnoiseHealthInit]
  exact hrun.measures _ Health.reading Call.output _ _ _ (fun c hcall hI => hI.addBit_counts hcall)
    infnoiseHealthInit_inv hread

end Kernel
