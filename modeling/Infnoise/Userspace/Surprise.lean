import Infnoise.Core.Surprise
import Infnoise.Kernel.Surprise
import Infnoise.Userspace.CounterBounds
import Infnoise.Userspace.Fed

/-!
# What the entropy count measures

`numBitsOfEntropy` follows a gauge of the surprise of the samples: what is added for a sample is
`-log₂` of the frequency that the tables give for its bit in its context. The rounding of the
`double` arithmetic stays below a billionth of a bit, however long the checker runs.
-/

namespace Userspace

open Core Core.Binary64
open Kernel (selectBit)

/-- The probability that enters the loop is the one before, multiplied by the frequency of the bit up
to its rounding. -/
lemma exists_factor {x : Float} {p : ℚ} (hp : IsNormal x p) (hhalf : 1 / 2 < p) (hone : p ≤ 1)
    {count other : ℕ} (hcount : count < inmMaxCount) (hother : other < inmMaxCount) :
    ∃ (q : ℚ) (f : ℝ),
      IsNormal (if count ≠ 0 then x * (Float.ofNat count / Float.ofNat (u32 (count + other)))
        else x) q ∧
      2 ^ (-17 : ℤ) ≤ q ∧ q ≤ 1 ∧ 0 < f ∧ (q : ℝ) = p * f ∧
      surprise (frequency count other) - 2 ^ (-50 : ℤ) ≤ surprise f ∧
      surprise f ≤ surprise (frequency count other) + 2 ^ (-50 : ℤ) := by
  simp only [inmMaxCount] at hcount hother
  split_ifs with hseen
  · have hpos := Nat.pos_of_ne_zero hseen
    obtain ⟨q, f, hq, hf, hqf, hlower, hupper⟩ := hp.mul_frequency hhalf hone hpos hcount hother
    obtain ⟨g, hg, hglow, hghigh⟩ := isNormal_frequency hpos hcount hother
    have hlo : IsNormal _ (2 ^ (-69 + 52 : ℤ)) := isNormal_pow (by norm_num) (by norm_num) rfl
    obtain ⟨r, hr, hrlow, hrhigh⟩ := hp.mul hg hlo isNormal_one
      (calc (2 : ℚ) ^ (-69 + 52 : ℤ) = 1 / 2 * 2 ^ (-16 : ℤ) := by norm_num
        _ ≤ p * g := mul_le_mul hhalf.le hglow (by positivity) (by linarith))
      (mul_le_one₀ hone (le_trans (by positivity) hglow) hghigh)
    rw [u32_of_lt (by omega)]
    obtain rfl := hr.unique hq
    exact ⟨r, f, hq, hrlow, hrhigh, hf, hqf, hlower, hupper⟩
  · rw [not_not.mp hseen, frequency_zero, surprise_one]
    exact ⟨p, 1, hp, le_trans (by norm_num) hhalf.le, hone, one_pos, by simp,
      by norm_num [surprise_one], by norm_num [surprise_one]⟩

namespace HealthState

/-- The frequency that the tables give for the bit of a sample, in the context it meets. -/
noncomputable def frequency (hc : HealthState) (x : Kernel.Sample) : ℝ :=
  let prevBits := (hc.observe x.evenBit x.oddBit x.even).prevBits
  Core.frequency (hc.table x.even x.bit prevBits) (hc.table x.even (!x.bit) prevBits)

/-- What a gauge is compared with. -/
noncomputable def reading (hc : HealthState) : Reading :=
  ⟨hc.numBitsSampled, hc.numBitsOfEntropy, floatValue hc.currentProbability⟩

/-- What holds of a checker started with `N = n` between the calls. -/
structure Metered (n : ℕ) (hc : HealthState) : Prop where
  inRange : hc.InRange n
  sampled_lt : hc.numBitsSampled < inmMinData
  entropy_le : hc.numBitsOfEntropy ≤ 17 * hc.numBitsSampled

variable {n : ℕ} {hc : HealthState}

/-- The end of a call leaves the probability as it is. -/
lemma finishBit_probability (hc : HealthState) (bit even : Bool) :
    (hc.finishBit bit even).currentProbability = hc.currentProbability := by
  obtain ⟨_, _, _, _, _, _, _, _, _, _, hframe⟩ := hc.finishBit_frame bit even
  rw [hframe]

/-- It scales the count when the window is full. -/
lemma finishBit_counts (hc : HealthState) (bit even : Bool)
    (hlt : hc.numBitsSampled < inmMinData) :
    if hc.numBitsSampled + 1 = inmMinData then
      (hc.finishBit bit even).numBitsSampled = (hc.numBitsSampled + 1) / 2 ∧
        (hc.finishBit bit even).numBitsOfEntropy = hc.numBitsOfEntropy / 2
    else
      (hc.finishBit bit even).numBitsSampled = hc.numBitsSampled + 1 ∧
        (hc.finishBit bit even).numBitsOfEntropy = hc.numBitsOfEntropy := by
  simp only [inmMinData] at hlt
  obtain ⟨_, _, _, _, htables⟩ := hc.countSample.updateTables_frame bit even
  obtain ⟨_, _, hzeroOne⟩ := scaleZeroOneCounts_frame
    (scaleEntropy (hc.countSample.updateTables bit even))
  have hsampled : u32 (hc.numBitsSampled + 1) = hc.numBitsSampled + 1 := u32_of_lt (by omega)
  rw [finishBit, hzeroOne, htables, scaleEntropy]
  simp only [countSample, hsampled]
  split_ifs
  · simp [Nat.shiftRight_one]
  · simp

/-- The state in which the loop is entered, as far as the probability is concerned. -/
lemma enterLoop_eq (hc : HealthState) (x : Kernel.Sample) :
    let prevBits := (hc.observe x.evenBit x.oddBit x.even).prevBits
    let count := hc.table x.even x.bit prevBits
    ∃ ones zeros sOnes sZeros, hc.enterLoop x.evenBit x.oddBit x.even =
      { hc.observe x.evenBit x.oddBit x.even with
        totalOnes := ones, totalZeros := zeros
        numSequentialOnes := sOnes, numSequentialZeros := sZeros
        currentProbability :=
          if count ≠ 0 then
            hc.currentProbability * (Float.ofNat count /
              Float.ofNat (u32 (count + hc.table x.even (!x.bit) prevBits)))
          else hc.currentProbability } := by
  obtain ⟨ones, zeros, sOnes, sZeros, hstuck⟩ :=
    (hc.observe x.evenBit x.oddBit x.even).checkStuck_eq x.bit
  refine ⟨ones, zeros, sOnes, sZeros, ?_⟩
  have hbit : selectBit x.evenBit x.oddBit x.even = x.bit := rfl
  have htable : ∀ e b, ((hc.observe x.evenBit x.oddBit x.even).checkStuck x.bit).2.table e b =
      hc.table e b := by
    intro e b
    rw [hstuck]
    cases e <;> cases b <;> rfl
  rw [enterLoop, hbit, updateProbability_eq, htable, htable, hstuck]
  rfl

/-- The probability is more than one half between the calls. -/
lemma InRange.prob_mem (h : hc.InRange n) : 1 / 2 < hc.reading.prob ∧ hc.reading.prob ≤ 1 := by
  obtain ⟨q, hq, hhalf, hone⟩ := h.probability
  simp only [reading, hq.floatValue_eq]
  constructor
  · simpa using (Rat.cast_lt (K := ℝ)).mpr hhalf
  · simpa using (Rat.cast_le (K := ℝ)).mpr hone

/-- A call that passes multiplies the probability with the frequency of its sample, up to rounding,
and doubles it a few times. -/
lemma InRange.exists_rounds {hc' : HealthState} {x : Kernel.Sample} (h : hc.InRange n)
    (hadd : hc.addBit x = some (true, hc')) :
    ∃ (f : ℝ) (k : ℕ), hc' =
        (countBit^[k] (hc.enterLoop x.evenBit x.oddBit x.even)).finishBit x.bit x.even ∧
      k ≤ 17 ∧ 0 < f ∧ surprise (hc.frequency x) - 2 ^ (-50 : ℤ) ≤ surprise f ∧
      surprise f ≤ surprise (hc.frequency x) + 2 ^ (-50 : ℤ) ∧
      hc'.reading.prob = hc.reading.prob * f * 2 ^ k := by
  rcases inmHealthCheckAddBit_returned hadd with ⟨hfalse, -, -⟩ | ⟨-, -, hc₁, hloop, rfl⟩
  · cases hfalse
  · obtain ⟨p, hp, hhalf', hone'⟩ := h.probability
    obtain ⟨_, _, _, _, hentered⟩ := hc.enterLoop_eq x
    obtain ⟨q, f, hq, hlow, hhigh, hf, hqf, hlower, hupper⟩ := exists_factor hp hhalf' hone'
      (h.table_lt x.even x.bit (hc.observe x.evenBit x.oddBit x.even).prevBits)
      (h.table_lt x.even (!x.bit) (hc.observe x.evenBit x.oddBit x.even).prevBits)
    have hprobability := congrArg HealthState.currentProbability hentered
    dsimp only at hprobability
    rw [← hprobability] at hq
    obtain ⟨k, hk, hdoubles, hhalf, hone⟩ := exists_doublings hlow hhigh
    have hfuel : k ≤ doublingFuel := by
      simp only [doublingFuel]
      omega
    obtain rfl := Option.some.inj ((doublingLoop_eq hq hfuel hdoubles hhalf).symm.trans hloop)
    refine ⟨f, k, rfl, hk, hf, hlower, hupper, ?_⟩
    simp only [reading, finishBit_probability, hp.floatValue_eq,
      (countBit_iterate_probability hq hdoubles).floatValue_eq]
    push_cast
    rw [hqf]

/-- A call counts the surprise of its sample, unless it reports a fault. -/
lemma Metered.addBit_counts {hc' : HealthState} {x : Kernel.Sample} {ok : Bool} (h : hc.Metered n)
    (hpos : 1 ≤ n) (hadd : hc.addBit x = some (ok, hc')) :
    hc'.Metered n ∧ (ok = false → hc'.reading = hc.reading) ∧
      (ok = true → hc.reading.Counts inmMinData (surprise (hc.frequency x)) (-2 ^ (-50 : ℤ))
        (2 ^ (-50 : ℤ)) hc'.reading) := by
  obtain ⟨r, hr, hrange⟩ := h.inRange.addBit hpos x
  obtain rfl := Option.some.inj (hr.symm.trans hadd)
  have hsampled := h.sampled_lt
  have hentropy := h.entropy_le
  have hwindow : inmMinData = 80000 := rfl
  cases ok with
  | false =>
    rcases inmHealthCheckAddBit_returned hadd with ⟨-, -, rfl⟩ | ⟨htrue, -⟩
    · obtain ⟨_, _, _, _, hstuck⟩ := (hc.observe x.evenBit x.oddBit x.even).checkStuck_eq
        (selectBit x.evenBit x.oddBit x.even)
      rw [hstuck] at hrange ⊢
      exact ⟨⟨hrange, h.sampled_lt, h.entropy_le⟩, fun _ => rfl, fun hfalse => by cases hfalse⟩
    · cases htrue
  | true =>
    obtain ⟨hhalf, hone⟩ := hrange.prob_mem
    obtain ⟨f, k, rfl, hk, hf, hlower, hupper, hprob⟩ := h.inRange.exists_rounds hadd
    obtain ⟨_, _, _, _, hentered⟩ := hc.enterLoop_eq x
    have hcounted : (countBit^[k] (hc.enterLoop x.evenBit x.oddBit x.even)).numBitsOfEntropy =
        hc.numBitsOfEntropy + k := by
      have hbefore : (hc.enterLoop x.evenBit x.oddBit x.even).numBitsOfEntropy =
          hc.numBitsOfEntropy := by
        rw [hentered]
        rfl
      rw [countBit_iterate_entropy (by omega), hbefore]
    have hsame : (countBit^[k] (hc.enterLoop x.evenBit x.oddBit x.even)).numBitsSampled =
        hc.numBitsSampled := by
      rw [countBit_iterate, hentered]
      rfl
    have hend := finishBit_counts
      (countBit^[k] (hc.enterLoop x.evenBit x.oddBit x.even)) x.bit x.even
      (by rw [hsame]; exact h.sampled_lt)
    rw [hcounted, hsame] at hend
    refine ⟨⟨hrange, ?_, ?_⟩, (fun hfalse => by cases hfalse), fun _ => ?_⟩
    · split_ifs at hend <;> omega
    · split_ifs at hend <;> omega
    · exact ⟨hhalf, hone, f, k, hf, (sub_eq_add_neg _ _).symm.trans_le hlower, hupper, hprob, hend⟩

end HealthState

lemma inmHealthCheckStart_metered (log : Float → Float) (memory : HealthState) (k : Float)
    (debug : Bool) {n : ℕ} (hpos : 1 ≤ n) (hle : n ≤ 30) :
    (inmHealthCheckStart log memory n k debug true).2.Metered n ∧
      (inmHealthCheckStart log memory n k debug true).2.reading = ⟨0, 0, 1⟩ := by
  have hrange := inmHealthCheckStart_inRange log memory k debug hpos hle
  have hone : floatValue 1.0 = 1 := by
    rw [isNormal_one.floatValue_eq, Rat.cast_one]
  rw [inmHealthCheckStart, if_neg (by omega)] at hrange ⊢
  refine ⟨⟨hrange, Nat.zero_lt_succ _, Nat.zero_le _⟩, ?_⟩
  simp only [HealthState.reading, resetStats, hone]

/-- The errors of a full window are below a billionth of a bit. -/
lemma errors_le : (2 : ℝ) ^ (-50 : ℤ) * inmMinData ≤ 2 ^ (-33 : ℤ) := by
  norm_num [inmMinData]

/-- The gauges that a run from a checker just started measures. -/
lemma run_measures {n : ℕ} {hc hc' : HealthState} {cs : List (Call HealthState Kernel.Sample Bool)}
    (hrun : Run HealthState.addBit hc cs hc') (hmetered : hc.Metered n) (hpos : 1 ≤ n)
    (hreading : hc.reading = ⟨0, 0, 1⟩) :
    let gauge := Gauge.of inmMinData
      ((cs.filter Call.output).map fun c => surprise (c.before.frequency c.input))
    hc'.numBitsSampled = gauge.samples ∧
      gauge.total - 2 - 2 ^ (-33 : ℤ) < hc'.numBitsOfEntropy ∧
        (hc'.numBitsOfEntropy : ℝ) ≤ gauge.total + 1 + 2 ^ (-33 : ℤ) := by
  have hmeasures := hrun.measures inmMinData HealthState.reading Call.output
    (fun c => surprise (c.before.frequency c.input)) (fun _ => -2 ^ (-50 : ℤ))
    (fun _ => 2 ^ (-50 : ℤ)) (fun c hcall hI => hI.addBit_counts hpos hcall) hmetered hreading
  obtain ⟨hlower, hupper⟩ := hmeasures.count_bounds (by decide) (by decide) (by positivity)
  have herrors := errors_le
  refine ⟨hmeasures.samples_eq, ?_, ?_⟩
  · refine lt_of_le_of_lt ?_ hlower
    linarith
  · refine le_trans hupper ?_
    linarith

/-- Matched checkers give a sample the same frequency. -/
lemma Matched.frequency_eq {h : Kernel.Health} {hc : HealthState} (hm : Matched h hc)
    (x : Kernel.Sample) : hc.frequency x = h.frequency x := by
  have hprev : (hc.observe x.evenBit x.oddBit x.even).prevBits =
      (h.observe x.evenBit x.oddBit x.even).prevBits := by
    rw [HealthState.observe_prevBits hm.inv'.n_eq, Kernel.Health.observe_prevBits,
      hm.agree.prevBits_eq, hm.agree.prevBit_eq]
  rw [HealthState.frequency, Kernel.Health.frequency, hprev, ← hm.agree.table_eq, Core.frequency]
  split_ifs
  · rw [Rat.cast_one]
  · push_cast
    rfl

/-- As long as neither checker reports a fault, they count the same entropy: started fresh, the
kernel counts at most three bits less than the library, and what it counts more is less than four
bits and its roundings. -/
theorem entropy_counts_agree (log : Float → Float) (memory : HealthState) (k : Float)
    (debug : Bool) (samples : List Kernel.Sample) :
    ∃ cs h ds hc, Run Kernel.Health.addBit Kernel.infnoiseHealthInit cs h ∧
      Run HealthState.addBit (freshChecker log memory k debug) ds hc ∧
      cs.map Call.input = samples ∧ ds.map Call.input = samples ∧
      ((∀ c ∈ cs, c.output = true) →
        let roundings := Gauge.of inmMinData
          (cs.map fun c => Real.logb 2 (Kernel.rounding (c.before.bitsCounted c.input)))
        hc.numBitsOfEntropy ≤ h.numBitsOfEntropy + 3 ∧
          (h.numBitsOfEntropy : ℝ) < hc.numBitsOfEntropy + 4 + roundings.total) := by
  have hstart := matched_fresh log memory k debug
  have hreturns : ∀ h x, Kernel.Health.Inv h →
      ∃ r, Kernel.Health.addBit h x = some r ∧ Kernel.Health.Inv r.2 :=
    fun _ x hinv => Kernel.Health.addBit_returns hinv x
  have hreturns' : ∀ hc x, HealthState.Inv hc →
      ∃ r, HealthState.addBit hc x = some r ∧ HealthState.Inv r.2 :=
    fun _ x hinv => inmHealthCheckAddBit_returns hinv x.evenBit x.oddBit x.even
  obtain ⟨cs, h, hcs, hin⟩ := Run.exists_of_total hreturns hstart.inv samples
  obtain ⟨ds, hc, hds, hin'⟩ := Run.exists_of_total hreturns' hstart.inv' samples
  refine ⟨cs, h, ds, hc, hcs, hds, hin, hin', fun htrue => ?_⟩
  obtain ⟨-, htrue', hsame⟩ := hcs.lockstep_map (R := Matched)
    (f := fun c => surprise (c.before.frequency c.input))
    (g := fun d => surprise (d.before.frequency d.input))
    (fun _ _ x _ _ _ _ hm hk hu => hm.addBit x hk hu)
    (fun c d hm hinput => by rw [hm.frequency_eq, hinput]) hds (hin.trans hin'.symm) htrue hstart
  have hkernel := Kernel.run_measures hcs
  obtain ⟨hmetered, hreading⟩ := inmHealthCheckStart_metered log
    { memory with prevEven := false, prevOdd := false } k debug (n := predictionBits) (by decide)
    (by decide)
  obtain ⟨-, hlower, hupper⟩ := run_measures hds hmetered (by decide) hreading
  obtain ⟨hlower', hupper'⟩ := hkernel.follows.count_bounds
  rw [Gauge.total_const (by decide), zero_mul, add_zero] at hlower'
  rw [List.filter_eq_self.mpr htrue] at hlower' hupper'
  rw [List.filter_eq_self.mpr htrue', ← hsame] at hlower hupper
  have hsmall : (2 : ℝ) ^ (-33 : ℤ) < 1 := by norm_num
  have hwindow : Kernel.inmMinData = inmMinData := rfl
  simp only [Kernel.Health.reading, hwindow] at hlower' hupper'
  constructor
  · have hlt : (hc.numBitsOfEntropy : ℝ) < (h.numBitsOfEntropy + 4 : ℕ) := by
      push_cast
      linarith
    exact Nat.le_of_lt_succ (by exact_mod_cast hlt)
  · linarith

end Userspace
