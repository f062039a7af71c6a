import Infnoise.Userspace.Extraction

/-!
# Nothing depends on the misfires

The health checker compares each comparator with what it was at the sample before, and counts the
differences. It prints these counts, and decides nothing by them: with other counts, or other
comparators to compare with, it returns the same and leaves the same state otherwise.
-/

namespace Userspace

open Core
open Kernel (selectBit)

/-- The comparators at the last sample, and how often they have misfired. -/
structure Misfires where
  evenMisfires : ℕ
  oddMisfires : ℕ
  prevEven : Bool
  prevOdd : Bool

namespace HealthState

def withMisfires (hc : HealthState) (m : Misfires) : HealthState :=
  { hc with
    evenMisfires := m.evenMisfires
    oddMisfires := m.oddMisfires
    prevEven := m.prevEven
    prevOdd := m.prevOdd }

section Fields

variable (hc : HealthState) (m : Misfires)

@[simp] lemma withMisfires_onesEven : (hc.withMisfires m).onesEven = hc.onesEven := rfl
@[simp] lemma withMisfires_zerosEven : (hc.withMisfires m).zerosEven = hc.zerosEven := rfl
@[simp] lemma withMisfires_onesOdd : (hc.withMisfires m).onesOdd = hc.onesOdd := rfl
@[simp] lemma withMisfires_zerosOdd : (hc.withMisfires m).zerosOdd = hc.zerosOdd := rfl
@[simp] lemma withMisfires_prevBits : (hc.withMisfires m).prevBits = hc.prevBits := rfl
@[simp] lemma withMisfires_numBitsSampled :
    (hc.withMisfires m).numBitsSampled = hc.numBitsSampled := rfl
@[simp] lemma withMisfires_numBitsOfEntropy :
    (hc.withMisfires m).numBitsOfEntropy = hc.numBitsOfEntropy := rfl
@[simp] lemma withMisfires_currentProbability :
    (hc.withMisfires m).currentProbability = hc.currentProbability := rfl
@[simp] lemma withMisfires_numSequentialZeros :
    (hc.withMisfires m).numSequentialZeros = hc.numSequentialZeros := rfl
@[simp] lemma withMisfires_numSequentialOnes :
    (hc.withMisfires m).numSequentialOnes = hc.numSequentialOnes := rfl
@[simp] lemma withMisfires_totalOnes : (hc.withMisfires m).totalOnes = hc.totalOnes := rfl
@[simp] lemma withMisfires_totalZeros : (hc.withMisfires m).totalZeros = hc.totalZeros := rfl

end Fields

end HealthState

namespace Misfires

/-- A sample is compared with the one before. -/
def observe (m : Misfires) (x : Kernel.Sample) : Misfires where
  evenMisfires :=
    if x.even then u32 (m.evenMisfires + (x.evenBit != m.prevEven).toNat) else m.evenMisfires
  oddMisfires :=
    if x.even then m.oddMisfires else u32 (m.oddMisfires + (x.oddBit != m.prevOdd).toNat)
  prevEven := x.evenBit
  prevOdd := x.oddBit

def halve (m : Misfires) : Misfires :=
  { m with evenMisfires := m.evenMisfires >>> 1, oddMisfires := m.oddMisfires >>> 1 }

/-- What a call that returns `ok` makes of them, with `sampled` samples counted before it. -/
def after (m : Misfires) (sampled : ℕ) (x : Kernel.Sample) (ok : Bool) : Misfires :=
  if ok = true ∧ u32 (sampled + 1) = inmMinData then (m.observe x).halve else m.observe x

end Misfires

namespace HealthState

variable (hc : HealthState) (m : Misfires)

lemma checkStuck_withMisfires (bit : Bool) :
    (hc.withMisfires m).checkStuck bit =
      ((hc.checkStuck bit).1, (hc.checkStuck bit).2.withMisfires m) := by
  simp only [checkStuck]
  rw [withMisfires_numBitsSampled, withMisfires_numSequentialOnes, withMisfires_numSequentialZeros]
  split_ifs <;> rfl

lemma updateProbability_withMisfires (bit even : Bool) :
    (hc.withMisfires m).updateProbability bit even =
      (hc.updateProbability bit even).withMisfires m := by
  rw [updateProbability_eq, updateProbability_eq]
  rfl

lemma countBit_withMisfires : (hc.withMisfires m).countBit = hc.countBit.withMisfires m := by
  have hok : inmHealthCheckOkToUseData { hc.withMisfires m with
      currentProbability := hc.currentProbability * 2.0
      numBitsOfEntropy := u32 (hc.numBitsOfEntropy + 1) } =
    inmHealthCheckOkToUseData { hc with
      currentProbability := hc.currentProbability * 2.0
      numBitsOfEntropy := u32 (hc.numBitsOfEntropy + 1) } := rfl
  simp only [countBit]
  rw [withMisfires_currentProbability, withMisfires_numBitsOfEntropy, hok]
  split_ifs <;> rfl

lemma doublingLoop_withMisfires (fuel : ℕ) :
    doublingLoop fuel (hc.withMisfires m) =
      (doublingLoop fuel hc).map fun hc' => hc'.withMisfires m := by
  induction fuel generalizing hc with
  | zero =>
    rw [doublingLoop, doublingLoop, withMisfires_currentProbability]
    split_ifs <;> rfl
  | succ fuel ih =>
    rw [doublingLoop, doublingLoop, withMisfires_currentProbability, countBit_withMisfires, ih]
    split_ifs <;> rfl

lemma updateTables_withMisfires (bit even : Bool) :
    (hc.withMisfires m).updateTables bit even = (hc.updateTables bit even).withMisfires m := by
  simp only [updateTables]
  rw [withMisfires_onesEven, withMisfires_zerosEven, withMisfires_onesOdd, withMisfires_zerosOdd,
    withMisfires_prevBits]
  split_ifs <;> rfl

lemma scaleEntropy_withMisfires :
    scaleEntropy (hc.withMisfires m) =
      (scaleEntropy hc).withMisfires (if hc.numBitsSampled = inmMinData then m.halve else m) := by
  rw [scaleEntropy, scaleEntropy, withMisfires_numBitsSampled]
  split_ifs <;> rfl

lemma scaleZeroOneCounts_withMisfires :
    scaleZeroOneCounts (hc.withMisfires m) = (scaleZeroOneCounts hc).withMisfires m := by
  simp only [scaleZeroOneCounts]
  rw [withMisfires_totalZeros, withMisfires_totalOnes]
  split_ifs <;> rfl

lemma finishBit_withMisfires (bit even : Bool) :
    (hc.withMisfires m).finishBit bit even = (hc.finishBit bit even).withMisfires
      (if u32 (hc.numBitsSampled + 1) = inmMinData then m.halve else m) := by
  have hsample : (hc.withMisfires m).countSample = hc.countSample.withMisfires m := rfl
  obtain ⟨_, _, _, _, hframe⟩ := hc.countSample.updateTables_frame bit even
  have hsampled : (hc.countSample.updateTables bit even).numBitsSampled =
      u32 (hc.numBitsSampled + 1) := by
    rw [hframe]
    rfl
  rw [finishBit, hsample, updateTables_withMisfires, scaleEntropy_withMisfires,
    scaleZeroOneCounts_withMisfires, hsampled]
  rfl

lemma observe_withMisfires {x x' : Kernel.Sample} (hbit : x'.bit = x.bit) :
    (hc.withMisfires m).observe x'.evenBit x'.oddBit x'.even =
      (hc.observe x.evenBit x.oddBit x.even).withMisfires (m.observe x') := by
  rw [Kernel.Sample.bit, Kernel.Sample.bit] at hbit
  simp only [observe, hbit]
  rfl

/-- A call on another sample with the same bit, and with other misfires, does the same. -/
theorem addBit_withMisfires {x x' : Kernel.Sample} (heven : x'.even = x.even)
    (hbit : x'.bit = x.bit) :
    (hc.withMisfires m).addBit x' = (hc.addBit x).map fun r =>
      (r.1, r.2.withMisfires (m.after hc.numBitsSampled x' r.1)) := by
  have hobserve := observe_withMisfires hc m hbit
  have hsampled : ((hc.observe x.evenBit x.oddBit x.even).checkStuck
      (selectBit x.evenBit x.oddBit x.even)).2.numBitsSampled = hc.numBitsSampled := by
    obtain ⟨_, _, _, _, heq⟩ := (hc.observe x.evenBit x.oddBit x.even).checkStuck_eq
      (selectBit x.evenBit x.oddBit x.even)
    rw [heq]
    rfl
  rw [Kernel.Sample.bit, Kernel.Sample.bit] at hbit
  simp only [addBit, inmHealthCheckAddBit]
  rw [hobserve, hbit, heven, checkStuck_withMisfires]
  rcases hst : (hc.observe x.evenBit x.oddBit x.even).checkStuck
    (selectBit x.evenBit x.oddBit x.even) with ⟨_ | _, hc₁⟩
  · rw [hst] at hsampled
    dsimp only at hsampled ⊢
    rw [updateProbability_withMisfires, doublingLoop_withMisfires]
    rcases hloop : doublingLoop doublingFuel (hc₁.updateProbability
      (selectBit x.evenBit x.oddBit x.even) x.even) with _ | hc₂
    · rfl
    · obtain ⟨k, rfl⟩ := doublingLoop_iterate hloop
      have hsampled' : (countBit^[k] (hc₁.updateProbability
          (selectBit x.evenBit x.oddBit x.even) x.even)).numBitsSampled = hc.numBitsSampled := by
        rw [countBit_iterate, updateProbability_eq]
        exact hsampled
      simp only [Option.map_some, finishBit_withMisfires, hsampled', Misfires.after, true_and]
  · simp [Misfires.after]

end HealthState

end Userspace
