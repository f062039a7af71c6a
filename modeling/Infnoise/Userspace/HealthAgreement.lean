import Infnoise.Kernel.HealthSafety
import Infnoise.Userspace.HealthInvariant

/-!
# The two health checkers agree

Fed the same samples, the kernel checker and the userspace one keep the same statistics up to the
first call that reports a fault, which is the same call on both sides. The two estimate the entropy
in different arithmetic, but nothing in the statistics depends on the estimate. Where one of them
scales a counter when it equals its limit and the other when it is at least that, the limit is
reached exactly.
-/

namespace Userspace

open Core
open Kernel (Health selectBit infnoiseHealthInit infnoiseHealthAddBit)

/-! ### Agreement -/

/-- The two checkers have the same statistics. -/
structure Agree (h : Health) (hc : HealthState) : Prop where
  prevBits_eq : h.prevBits = hc.prevBits
  prevBit_eq : h.prevBit = hc.prevBit
  prevEven_eq : h.prevEven = hc.prevEven
  prevOdd_eq : h.prevOdd = hc.prevOdd
  totalBits_eq : h.totalBits = hc.totalBits
  numBitsSampled_eq : h.numBitsSampled = hc.numBitsSampled
  table_eq : h.table = hc.table
  totalOnes_eq : h.totalOnes = hc.totalOnes
  totalZeros_eq : h.totalZeros = hc.totalZeros
  seqOnes_eq : h.seqOnes = hc.numSequentialOnes
  seqZeros_eq : h.seqZeros = hc.numSequentialZeros
  evenMisfires_eq : h.evenMisfires = hc.evenMisfires
  oddMisfires_eq : h.oddMisfires = hc.oddMisfires

/-- What the agreement needs to know of the counters: the totals are at most `limit`. -/
structure Within (limit : ℕ) (h : Health) : Prop where
  totalOnes_le : h.totalOnes ≤ limit
  totalZeros_le : h.totalZeros ≤ limit
  evenMisfires_lt : h.evenMisfires < 4294967296
  oddMisfires_lt : h.oddMisfires < 4294967296

variable {h : Health} {hc : HealthState} {limit : ℕ}

lemma Agree.observe (hag : Agree h hc) (hw : Within limit h) (hn : hc.n = predictionBits)
    (evenBit oddBit even : Bool) :
    Agree (h.observe evenBit oddBit even) (hc.observe evenBit oddBit even) where
  prevBits_eq := by
    rw [Kernel.Health.observe_prevBits, HealthState.observe_prevBits hn, hag.prevBits_eq,
      hag.prevBit_eq]
  prevBit_eq := rfl
  prevEven_eq := rfl
  prevOdd_eq := rfl
  totalBits_eq := by simp only [Health.observe, HealthState.observe, hag.totalBits_eq]
  numBitsSampled_eq := hag.numBitsSampled_eq
  table_eq := by
    rw [Kernel.Health.observe_table, hag.table_eq]
    funext e b
    cases e <;> cases b <;> rfl
  totalOnes_eq := hag.totalOnes_eq
  totalZeros_eq := hag.totalZeros_eq
  seqOnes_eq := hag.seqOnes_eq
  seqZeros_eq := hag.seqZeros_eq
  evenMisfires_eq := by
    have hlt := hw.evenMisfires_lt
    simp only [Health.observe, HealthState.observe, ← hag.evenMisfires_eq, ← hag.prevEven_eq]
    cases even
    · rfl
    · cases hmis : evenBit != h.prevEven
      · simp [u32_of_lt hlt]
      · simp
  oddMisfires_eq := by
    have hlt := hw.oddMisfires_lt
    simp only [Health.observe, HealthState.observe, ← hag.oddMisfires_eq, ← hag.prevOdd_eq]
    cases even
    · cases hmis : oddBit != h.prevOdd
      · simp [u32_of_lt hlt]
      · simp
    · rfl

lemma Within.observe (hw : Within limit h) (evenBit oddBit even : Bool) :
    Within limit (h.observe evenBit oddBit even) where
  totalOnes_le := hw.totalOnes_le
  totalZeros_le := hw.totalZeros_le
  evenMisfires_lt := by
    simp only [Health.observe]
    split_ifs
    · exact u32_lt _
    · exact hw.evenMisfires_lt
  oddMisfires_lt := by
    simp only [Health.observe]
    split_ifs
    · exact u32_lt _
    · exact hw.oddMisfires_lt

/-- The two report a stuck source together, and when they do not they agree. -/
lemma Agree.checkStuck (hag : Agree h hc) (bit : Bool) :
    (h.checkStuck bit).1 = (hc.checkStuck bit).1 ∧
      ((h.checkStuck bit).1 = false → Agree (h.checkStuck bit).2 (hc.checkStuck bit).2) := by
  have hsam := hag.numBitsSampled_eq
  have hone := hag.seqOnes_eq
  have hzero := hag.seqZeros_eq
  have hones := hag.totalOnes_eq
  have hzeros := hag.totalZeros_eq
  simp only [Health.checkStuck, HealthState.checkStuck, Kernel.inmMinSampleSize, ← hsam]
  by_cases hs : h.numBitsSampled > 100
  · rw [if_pos hs, if_pos hs]
    cases bit
    · simp only [Bool.false_eq_true, if_false, ← hzero, Kernel.inmMaxSequence, inmMaxSequence]
      by_cases hseq : u32 (h.seqZeros + 1) > 20
      · rw [if_pos hseq]
        exact ⟨decide_eq_true hseq, fun hf => by simp [hseq] at hf⟩
      · rw [if_neg hseq]
        exact ⟨decide_eq_false hseq, fun _ => { hag with
          numBitsSampled_eq := rfl
          seqOnes_eq := rfl
          seqZeros_eq := rfl
          totalZeros_eq := by rw [← hzeros] }⟩
    · simp only [if_true, ← hone, Kernel.inmMaxSequence, inmMaxSequence]
      by_cases hseq : u32 (h.seqOnes + 1) > 20
      · rw [if_pos hseq]
        exact ⟨decide_eq_true hseq, fun hf => by simp [hseq] at hf⟩
      · rw [if_neg hseq]
        exact ⟨decide_eq_false hseq, fun _ => { hag with
          numBitsSampled_eq := rfl
          seqOnes_eq := rfl
          seqZeros_eq := rfl
          totalOnes_eq := by rw [← hones] }⟩
  · rw [if_neg hs, if_neg hs]
    exact ⟨rfl, fun _ => hag⟩

lemma Within.checkStuck (hw : Within limit h) (bit : Bool) :
    Within (limit + 1) (h.checkStuck bit).2 := by
  have hones := hw.totalOnes_le
  have hzeros := hw.totalZeros_le
  have hu : ∀ n, n ≤ limit → u32 (n + 1) ≤ limit + 1 := fun n hn => (u32_le _).trans (by omega)
  simp only [Health.checkStuck]
  split_ifs
  · exact ⟨hu _ hones, Nat.le_succ_of_le hzeros, hw.evenMisfires_lt, hw.oddMisfires_lt⟩
  · exact ⟨Nat.le_succ_of_le hones, hu _ hzeros, hw.evenMisfires_lt, hw.oddMisfires_lt⟩
  · exact ⟨Nat.le_succ_of_le hones, Nat.le_succ_of_le hzeros, hw.evenMisfires_lt,
      hw.oddMisfires_lt⟩

/-- Neither the probability nor the bits counted are among the statistics. -/
lemma Agree.countBit_iterate (hag : Agree h hc) (bit even : Bool) (k l : ℕ) :
    Agree (Health.countBit^[k] (h.updateProb bit even))
      (HealthState.countBit^[l] (hc.updateProbability bit even)) := by
  rw [Kernel.Health.countBit_iterate, Kernel.Health.updateProb_eq, HealthState.countBit_iterate,
    HealthState.updateProbability_eq]
  exact { hag with }

lemma Within.countBit_iterate (hw : Within limit h) (bit even : Bool) (k : ℕ) :
    Within limit (Health.countBit^[k] (h.updateProb bit even)) := by
  rw [Kernel.Health.countBit_iterate, Kernel.Health.updateProb_eq]
  exact { hw with }

/-! ### The end of a call -/

lemma Agree.updateTables (hag : Agree h hc) (hn : hc.n = predictionBits) (bit even : Bool)
    (hcount : hc.table even bit hc.prevBits < inmMaxCount) :
    Agree (h.countSample.updateTables bit even) (hc.countSample.updateTables bit even) := by
  have hk := h.countSample.updateTables_table bit even
  have hu := hc.countSample.updateTables_table hn bit even
    (by cases even <;> cases bit <;> exact hcount)
  have htable : h.countSample.table = hc.countSample.table := by
    have := hag.table_eq
    funext e b
    have := congrFun (congrFun this e) b
    cases e <;> cases b <;> exact this
  have hprev : h.countSample.prevBits = hc.countSample.prevBits := hag.prevBits_eq
  rw [htable, hprev] at hk
  have hsample : u32 (h.numBitsSampled + 1) = u32 (hc.numBitsSampled + 1) := by
    rw [hag.numBitsSampled_eq]
  obtain ⟨_, _, _, _, hfk⟩ := h.countSample.updateTables_frame bit even
  obtain ⟨_, _, _, _, hfu⟩ := hc.countSample.updateTables_frame bit even
  have heq := hk.trans hu.symm
  rw [hfk, hfu] at heq ⊢
  exact { hag with numBitsSampled_eq := hsample, table_eq := heq }

lemma Agree.scaleEntropy (hag : Agree h hc) (hs : h.numBitsSampled ≤ 80000) :
    Agree (Kernel.scaleEntropy h) (scaleEntropy hc) := by
  have hsam := hag.numBitsSampled_eq
  rw [Kernel.scaleEntropy, Userspace.scaleEntropy, inmMinData, Kernel.inmMinData, ← hsam]
  by_cases hfull : h.numBitsSampled = 80000
  · rw [if_pos (by omega), if_pos hfull]
    exact { hag with
      numBitsSampled_eq := rfl
      evenMisfires_eq := congrArg (· >>> 1) hag.evenMisfires_eq
      oddMisfires_eq := congrArg (· >>> 1) hag.oddMisfires_eq }
  · rw [if_neg (by omega), if_neg hfull]
    exact hag

lemma Agree.scaleZeroOneCounts (hag : Agree h hc) (hw : Within 80000 h) :
    Agree (Kernel.scaleZeroOneCounts h) (scaleZeroOneCounts hc) := by
  have hones := hag.totalOnes_eq
  have hzeros := hag.totalZeros_eq
  have hones_le := hw.totalOnes_le
  have hzeros_le := hw.totalZeros_le
  simp only [Kernel.scaleZeroOneCounts, Userspace.scaleZeroOneCounts, ← hones, ← hzeros]
  have hmax : (if h.totalZeros ≥ h.totalOnes then h.totalZeros else h.totalOnes)
      = max h.totalZeros h.totalOnes := by
    split_ifs <;> omega
  rw [hmax]
  by_cases hfull : max h.totalZeros h.totalOnes = inmMinData
  · rw [if_pos (by simp only [inmMinData, Kernel.inmMinData] at hfull ⊢; omega), if_pos hfull]
    exact { hag with totalOnes_eq := rfl, totalZeros_eq := rfl }
  · rw [if_neg (by simp only [inmMinData, Kernel.inmMinData] at hfull ⊢; omega), if_neg hfull]
    exact hag

/-- Totals that reach the bound are brought back below it. -/
lemma Within.scaleZeroOneCounts (hw : Within 80000 h) :
    Within 79999 (Kernel.scaleZeroOneCounts h) := by
  have hones := hw.totalOnes_le
  have hzeros := hw.totalZeros_le
  simp only [Kernel.scaleZeroOneCounts, Kernel.inmMinData, Nat.shiftRight_eq_div_pow]
  split_ifs with hfull
  · exact ⟨by dsimp only; omega, by dsimp only; omega, hw.evenMisfires_lt, hw.oddMisfires_lt⟩
  · exact ⟨by omega, by omega, hw.evenMisfires_lt, hw.oddMisfires_lt⟩

lemma Within.updateTables (hw : Within limit h) (bit even : Bool) :
    Within limit (h.countSample.updateTables bit even) := by
  obtain ⟨_, _, _, _, hframe⟩ := h.countSample.updateTables_frame bit even
  rw [hframe]
  exact { hw with }

lemma Within.scaleEntropy (hw : Within limit h) : Within limit (Kernel.scaleEntropy h) := by
  have heven := hw.evenMisfires_lt
  have hodd := hw.oddMisfires_lt
  simp only [Kernel.scaleEntropy, Nat.shiftRight_eq_div_pow]
  split_ifs
  · exact ⟨hw.totalOnes_le, hw.totalZeros_le, by dsimp only; omega, by dsimp only; omega⟩
  · exact hw

/-- The verdict is not among the statistics. -/
lemma Agree.updateStatus (hag : Agree h hc) : Agree h.updateStatus hc := { hag with }

lemma Within.updateStatus (hw : Within limit h) : Within limit h.updateStatus := { hw with }

lemma Agree.finishBit (hag : Agree h hc) (hw : Within 80000 h) (hn : hc.n = predictionBits)
    (hs : h.numBitsSampled < 80000) (bit even : Bool)
    (hcount : hc.table even bit hc.prevBits < inmMaxCount) :
    Agree (h.finishBit bit even) (hc.finishBit bit even) ∧ Within 79999 (h.finishBit bit even) := by
  have htables := hag.updateTables hn bit even hcount
  have hwt := hw.updateTables bit even
  have hsample : (h.countSample.updateTables bit even).numBitsSampled ≤ 80000 := by
    obtain ⟨_, _, _, _, hframe⟩ := h.countSample.updateTables_frame bit even
    rw [hframe]
    exact (u32_le _).trans hs
  have hentropy := htables.scaleEntropy hsample
  have hcounts := hentropy.scaleZeroOneCounts hwt.scaleEntropy
  have hwithin := hwt.scaleEntropy.scaleZeroOneCounts
  rw [Kernel.Health.finishBit, HealthState.finishBit]
  exact ⟨hcounts.updateStatus, hwithin.updateStatus⟩

/-! ### A call -/

/-- The relation that the two checkers keep as long as no fault is reported. -/
structure Matched (h : Health) (hc : HealthState) : Prop where
  agree : Agree h hc
  inv : h.Inv
  inv' : hc.Inv
  within : Within 79999 h

/-- The machine of the calls of `inmHealthCheckAddBit`. -/
def HealthState.addBit (hc : HealthState) (x : Kernel.Sample) : Option (Bool × HealthState) :=
  inmHealthCheckAddBit hc x.evenBit x.oddBit x.even

/-- The two calls return the same, and when they return `true` the two checkers still match. -/
theorem Matched.addBit (hm : Matched h hc) (x : Kernel.Sample) {b b' : Bool} {h' : Health}
    {hc' : HealthState} (hk : h.addBit x = some (b, h')) (hu : hc.addBit x = some (b', hc')) :
    b = b' ∧ (b = true → Matched h' hc') := by
  obtain ⟨evenBit, oddBit, even⟩ := x
  have hobserve := hm.agree.observe hm.within hm.inv'.n_eq evenBit oddBit even
  have hwithin := hm.within.observe evenBit oddBit even
  obtain ⟨hverdict, hstuck⟩ := hobserve.checkStuck (selectBit evenBit oddBit even)
  have hwstuck := hwithin.checkStuck (selectBit evenBit oddBit even)
  simp only [Health.addBit, HealthState.addBit] at hk hu
  rcases Kernel.infnoiseHealthAddBit_cases hm.inv evenBit oddBit even with
    ⟨hfault, heq⟩ | ⟨hok, k, _, _, heq, hinv⟩
  · rcases inmHealthCheckAddBit_cases hm.inv' evenBit oddBit even with
      ⟨_, heq'⟩ | ⟨hok', _⟩
    · rw [heq] at hk
      rw [heq'] at hu
      cases hk
      cases hu
      exact ⟨rfl, fun hf => by cases hf⟩
    · rw [hfault, hok'] at hverdict
      cases hverdict
  · rcases inmHealthCheckAddBit_cases hm.inv' evenBit oddBit even with
      ⟨hfault', _⟩ | ⟨_, l, _, hentered, heq', hinv'⟩
    · rw [hok, hfault'] at hverdict
      cases hverdict
    · rw [heq] at hk
      rw [heq'] at hu
      cases hk
      cases hu
      refine ⟨rfl, fun _ => ?_⟩
      have hcounted := (hstuck hok).countBit_iterate (selectBit evenBit oddBit even) even k l
      have hwcounted := hwstuck.countBit_iterate (selectBit evenBit oddBit even) even k
      have hsampled : (Health.countBit^[k] (h.enterLoop evenBit oddBit even)).numBitsSampled
          < 80000 := by
        rw [Kernel.Health.countBit_iterate]
        exact (Kernel.Health.enterLoop_bounds hm.inv evenBit oddBit even).2.2.1
      obtain ⟨hfinish, hwfinish⟩ := hcounted.finishBit hwcounted hentered.n_eq hsampled
        (selectBit evenBit oddBit even) even (hentered.table_lt _ _ _)
      exact ⟨hfinish, hinv, hinv', hwfinish⟩

/-- A userspace checker started with `N = 14` on memory in which `prevEven` and `prevOdd` are false. -/
def freshChecker (log : Float → Float) (memory : HealthState) (k : Float) (debug : Bool) :
    HealthState :=
  (inmHealthCheckStart log { memory with prevEven := false, prevOdd := false } predictionBits k
    debug true).2

lemma matched_fresh (log : Float → Float) (memory : HealthState) (k : Float) (debug : Bool) :
    Matched infnoiseHealthInit (freshChecker log memory k debug) where
  agree :=
    { prevBits_eq := rfl
      prevBit_eq := rfl
      prevEven_eq := rfl
      prevOdd_eq := rfl
      totalBits_eq := rfl
      numBitsSampled_eq := rfl
      table_eq := by
        funext e b
        cases e <;> cases b <;> rfl
      totalOnes_eq := rfl
      totalZeros_eq := rfl
      seqOnes_eq := rfl
      seqZeros_eq := rfl
      evenMisfires_eq := rfl
      oddMisfires_eq := rfl }
  inv := Kernel.infnoiseHealthInit_inv
  inv' := inmHealthCheckStart_inv _ _ _ _ _
  within := by constructor <;> simp [infnoiseHealthInit]

/-- Whatever samples are fed to the two checkers, started fresh, all calls return. They return
`false` for the first time at the same call, or neither does, and at every call boundary up to
there they have the same statistics. -/
theorem health_checkers_agree (log : Float → Float) (memory : HealthState) (k : Float)
    (debug : Bool) (samples : List Kernel.Sample) :
    ∃ cs h ds hc, Run Health.addBit infnoiseHealthInit cs h ∧
      Run HealthState.addBit (freshChecker log memory k debug) ds hc ∧
      cs.map Call.input = samples ∧ ds.map Call.input = samples ∧
      firstFalse cs = firstFalse ds ∧
      ∀ n ≤ firstFalse cs, ∀ h' hc', Run Health.addBit infnoiseHealthInit (cs.take n) h' →
        Run HealthState.addBit (freshChecker log memory k debug) (ds.take n) hc' → Agree h' hc' := by
  have hstart := matched_fresh log memory k debug
  have hreturns : ∀ h x, Health.Inv h → ∃ r, Health.addBit h x = some r ∧ Health.Inv r.2 :=
    fun _ x hinv => Kernel.Health.addBit_returns hinv x
  have hreturns' : ∀ hc x, HealthState.Inv hc →
      ∃ r, HealthState.addBit hc x = some r ∧ HealthState.Inv r.2 :=
    fun _ x hinv => inmHealthCheckAddBit_returns hinv x.evenBit x.oddBit x.even
  have hsim : ∀ h hc x b b' h' hc', Matched h hc → Health.addBit h x = some (b, h') →
      HealthState.addBit hc x = some (b', hc') → b = b' ∧ (b = true → Matched h' hc') :=
    fun _ _ x _ _ _ _ hm hk hu => hm.addBit x hk hu
  obtain ⟨cs, h, hcs, hin⟩ := Run.exists_of_total hreturns hstart.inv samples
  obtain ⟨ds, hc, hds, hin'⟩ := Run.exists_of_total hreturns' hstart.inv' samples
  obtain ⟨hfirst, hagree⟩ := hcs.lockstep hsim hds (hin.trans hin'.symm) hstart
  exact ⟨cs, h, ds, hc, hcs, hds, hin, hin', hfirst,
    fun n hn h' hc' hk hu => (hagree n hn h' hc' hk hu).agree⟩

end Userspace
