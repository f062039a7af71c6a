import Infnoise.Kernel.Health

/-!
# The userspace health checker

Model of `healthcheck.c`. A `double` is a `Float`, which is an IEEE 754 binary64 number with the
rounding of C. The messages printed to `stderr` are left out. `log` is the one function of the
mathematical library the code calls, and a parameter here.
-/

namespace Userspace

open Core
open Kernel (selectBit)

/-! ### Constants -/

@[simp] def inmMinData : ℕ := 80000
@[simp] def inmMaxSequence : ℕ := 20
@[simp] def inmMaxCount : ℕ := 16384
def inmAccuracy : Float := 1.03
@[simp] def predictionBits : ℕ := 14
def designK : Float := 1.84

/-- `struct infnoise_health_state`. The four tables are functions of the context. -/
structure HealthState where
  n : ℕ
  k : Float
  expectedEntropyPerBit : Float
  debug : Bool
  onesEven : ℕ → ℕ
  zerosEven : ℕ → ℕ
  onesOdd : ℕ → ℕ
  zerosOdd : ℕ → ℕ
  prevBits : ℕ
  numBitsSampled : ℕ
  numBitsOfEntropy : ℕ
  currentProbability : Float
  totalBits : ℕ
  prevBit : Bool
  entropyLevel : ℕ
  numSequentialZeros : ℕ
  numSequentialOnes : ℕ
  totalOnes : ℕ
  totalZeros : ℕ
  evenMisfires : ℕ
  oddMisfires : ℕ
  prevEven : Bool
  prevOdd : Bool

/-! ### Start -/

def resetStats (hc : HealthState) : HealthState :=
  { hc with
    numBitsSampled := 0
    currentProbability := 1.0
    numBitsOfEntropy := 0
    entropyLevel := 0
    totalOnes := 0
    totalZeros := 0
    evenMisfires := 0
    oddMisfires := 0 }

/-- `inmHealthCheckStart` on memory that held `hc`. `allocated` says whether the four tables
could be allocated. -/
def inmHealthCheckStart (log : Float → Float) (hc : HealthState) (n : ℕ) (k : Float)
    (debug allocated : Bool) : Bool × HealthState :=
  if n < 1 ∨ n > 30 then (false, hc)
  else
    (allocated, resetStats { hc with
      debug
      numBitsOfEntropy := 0
      currentProbability := 1.0
      k
      n
      prevBits := 0
      onesEven := fun _ => 0
      zerosEven := fun _ => 0
      onesOdd := fun _ => 0
      zerosOdd := fun _ => 0
      expectedEntropyPerBit := log k / log 2.0
      totalBits := 0
      prevBit := false
      numSequentialZeros := 0
      numSequentialOnes := 0 })

/-! ### Scaling -/

/-- Halve the entries of a table, which has `2 ^ n` of them. -/
def halveTable (n : ℕ) (t : ℕ → ℕ) (i : ℕ) : ℕ := if i < 1 <<< n then t i >>> 1 else t i

def scaleStats (hc : HealthState) : HealthState :=
  { hc with
    zerosEven := halveTable hc.n hc.zerosEven
    onesEven := halveTable hc.n hc.onesEven
    zerosOdd := halveTable hc.n hc.zerosOdd
    onesOdd := halveTable hc.n hc.onesOdd }

def scaleEntropy (hc : HealthState) : HealthState :=
  if hc.numBitsSampled = inmMinData then
    { hc with
      numBitsOfEntropy := hc.numBitsOfEntropy >>> 1
      numBitsSampled := hc.numBitsSampled >>> 1
      evenMisfires := hc.evenMisfires >>> 1
      oddMisfires := hc.oddMisfires >>> 1 }
  else hc

def scaleZeroOneCounts (hc : HealthState) : HealthState :=
  let maxVal := if hc.totalZeros ≥ hc.totalOnes then hc.totalZeros else hc.totalOnes
  if maxVal = inmMinData then
    { hc with totalZeros := hc.totalZeros >>> 1, totalOnes := hc.totalOnes >>> 1 }
  else hc

/-! ### Verdicts -/

def inmHealthCheckEstimateEntropyPerBit (hc : HealthState) : Float :=
  Float.ofNat hc.numBitsOfEntropy / Float.ofNat hc.numBitsSampled

def inmHealthCheckOkToUseData (hc : HealthState) : Bool :=
  let entropy := inmHealthCheckEstimateEntropyPerBit hc
  decide (hc.totalBits ≥ inmMinData) && decide (hc.expectedEntropyPerBit ≤ entropy * inmAccuracy) &&
    decide (entropy / inmAccuracy ≤ hc.expectedEntropyPerBit)

def inmGetEntropyLevel (hc : HealthState) : ℕ := hc.entropyLevel

def inmClearEntropyLevel (hc : HealthState) : HealthState := { hc with entropyLevel := 0 }

def inmEntropyOnTarget (hc : HealthState) (entropy numBits : ℕ) : Bool :=
  let expectedEntropy := (Float.ofNat numBits * hc.expectedEntropyPerBit).toUInt32.toNat
  decide (Float.ofNat expectedEntropy < Float.ofNat entropy * inmAccuracy)

/-! ### `inmHealthCheckAddBit` -/

/-- Record the sample: misfires, totals, and the context of the next prediction. -/
def HealthState.observe (hc : HealthState) (evenBit oddBit even : Bool) : HealthState :=
  let shifted := u32 (hc.prevBits <<< 1) &&& ((1 <<< hc.n) - 1)
  { hc with
    evenMisfires :=
      if even then u32 (hc.evenMisfires + (evenBit != hc.prevEven).toNat) else hc.evenMisfires
    oddMisfires :=
      if even then hc.oddMisfires else u32 (hc.oddMisfires + (oddBit != hc.prevOdd).toNat)
    prevEven := evenBit
    prevOdd := oddBit
    totalBits := u64 (hc.totalBits + 1)
    prevBits := if hc.prevBit then shifted ||| 1 else shifted
    prevBit := selectBit evenBit oddBit even }

/-- The stuck-at check: `true` when a run of equal bits is too long. The counter of that run
starts again. -/
def HealthState.checkStuck (hc : HealthState) (bit : Bool) : Bool × HealthState :=
  if hc.numBitsSampled > 100 then
    if bit then
      let hc := { hc with
        totalOnes := u32 (hc.totalOnes + 1)
        numSequentialOnes := u32 (hc.numSequentialOnes + 1)
        numSequentialZeros := 0 }
      if hc.numSequentialOnes > inmMaxSequence then (true, { hc with numSequentialOnes := 0 })
      else (false, hc)
    else
      let hc := { hc with
        totalZeros := u32 (hc.totalZeros + 1)
        numSequentialZeros := u32 (hc.numSequentialZeros + 1)
        numSequentialOnes := 0 }
      if hc.numSequentialZeros > inmMaxSequence then (true, { hc with numSequentialZeros := 0 })
      else (false, hc)
  else (false, hc)

/-- Multiply the probability by the frequency of the observed bit in its context. -/
def HealthState.updateProbability (hc : HealthState) (bit even : Bool) : HealthState :=
  let zeros := if even then hc.zerosEven hc.prevBits else hc.zerosOdd hc.prevBits
  let ones := if even then hc.onesEven hc.prevBits else hc.onesOdd hc.prevBits
  let total := u32 (zeros + ones)
  if bit then
    if ones ≠ 0 then
      { hc with
        currentProbability := hc.currentProbability * (Float.ofNat ones / Float.ofNat total) }
    else hc
  else
    if zeros ≠ 0 then
      { hc with
        currentProbability := hc.currentProbability * (Float.ofNat zeros / Float.ofNat total) }
    else hc

/-- The body of the doubling loop: one more bit of entropy. -/
def HealthState.countBit (hc : HealthState) : HealthState :=
  let hc := { hc with
    currentProbability := hc.currentProbability * 2.0
    numBitsOfEntropy := u32 (hc.numBitsOfEntropy + 1) }
  if inmHealthCheckOkToUseData hc then { hc with entropyLevel := u32 (hc.entropyLevel + 1) }
  else hc

/-- `while (hc->currentProbability <= 0.5)`, for at most `fuel` rounds; `none` when the condition
still holds after them. -/
def doublingLoop : ℕ → HealthState → Option HealthState
  | 0, hc => if hc.currentProbability ≤ 0.5 then none else some hc
  | fuel + 1, hc => if hc.currentProbability ≤ 0.5 then doublingLoop fuel hc.countBit else some hc

/-- The smallest positive `double` is `2 ^ -1074`, and zero is never doubled past one half, so
running out of these rounds means that the loop does not end. -/
@[simp] def doublingFuel : ℕ := 1100

/-- Count the observed bit in the table of its context. -/
def HealthState.updateTables (hc : HealthState) (bit even : Bool) : HealthState :=
  if bit then
    if even then
      let hc := { hc with
        onesEven := Function.update hc.onesEven hc.prevBits (u32 (hc.onesEven hc.prevBits + 1)) }
      if hc.onesEven hc.prevBits = inmMaxCount then scaleStats hc else hc
    else
      let hc := { hc with
        onesOdd := Function.update hc.onesOdd hc.prevBits (u32 (hc.onesOdd hc.prevBits + 1)) }
      if hc.onesOdd hc.prevBits = inmMaxCount then scaleStats hc else hc
  else
    if even then
      let hc := { hc with
        zerosEven := Function.update hc.zerosEven hc.prevBits (u32 (hc.zerosEven hc.prevBits + 1)) }
      if hc.zerosEven hc.prevBits = inmMaxCount then scaleStats hc else hc
    else
      let hc := { hc with
        zerosOdd := Function.update hc.zerosOdd hc.prevBits (u32 (hc.zerosOdd hc.prevBits + 1)) }
      if hc.zerosOdd hc.prevBits = inmMaxCount then scaleStats hc else hc

/-- The sample counter goes up once the doubling loop is over. -/
def HealthState.countSample (hc : HealthState) : HealthState :=
  { hc with numBitsSampled := u32 (hc.numBitsSampled + 1) }

/-- What follows the doubling loop. -/
def HealthState.finishBit (hc : HealthState) (bit even : Bool) : HealthState :=
  scaleZeroOneCounts (scaleEntropy (hc.countSample.updateTables bit even))

/-- `inmHealthCheckAddBit`: whether the check still holds, and the state left; `none` when the
doubling loop does not end. -/
def inmHealthCheckAddBit (hc : HealthState) (evenBit oddBit even : Bool) :
    Option (Bool × HealthState) :=
  let bit := selectBit evenBit oddBit even
  match (hc.observe evenBit oddBit even).checkStuck bit with
  | (true, hc) => some (false, hc)
  | (false, hc) =>
    (doublingLoop doublingFuel (hc.updateProbability bit even)).map fun hc =>
      (true, hc.finishBit bit even)

end Userspace
