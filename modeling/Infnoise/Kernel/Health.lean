import Infnoise.Core.Word

/-!
# The kernel health checker

Model of `infnoise_health.c`: the prediction tables, the fixed-point entropy estimate and the
verdicts taken from them. Counters are natural numbers, wrapped where the code stores them.
-/

namespace Kernel

open Core

/-! ### Constants -/

@[simp] def inmTableSize : ℕ := 16384
@[simp] def inmMinData : ℕ := 80000
@[simp] def inmMinSampleSize : ℕ := 100
@[simp] def inmMaxSequence : ℕ := 20
@[simp] def inmMaxCount : ℕ := 16384
@[simp] def fpShift : ℕ := 16
@[simp] def fpOne : ℕ := 65536
@[simp] def fpHalf : ℕ := 32768
@[simp] def inmExpectedEntropyFp : ℕ := 57671
@[simp] def inmAccuracyFp : ℕ := 67502

/-! ### Fixed-point arithmetic -/

/-- `(u32)(((u64)a * b) >> FP_SHIFT)`. -/
def fpMul (a b : ℕ) : ℕ := u32 (u64 (a * b) >>> fpShift)

/-- `(u32)(((u64)a << FP_SHIFT) / b)`, and one when `b` is zero. -/
def fpDiv (a b : ℕ) : ℕ :=
  if b = 0 then fpOne else u32 (u64 (a <<< fpShift) / b)

/-! ### State -/

/-- `struct infnoise_health`. The four tables are functions of the context. -/
structure Health where
  onesEven : ℕ → ℕ
  zerosEven : ℕ → ℕ
  onesOdd : ℕ → ℕ
  zerosOdd : ℕ → ℕ
  prevBits : ℕ
  numBitsSampled : ℕ
  numBitsOfEntropy : ℕ
  entropyLevel : ℕ
  totalBits : ℕ
  totalOnes : ℕ
  totalZeros : ℕ
  evenMisfires : ℕ
  oddMisfires : ℕ
  seqZeros : ℕ
  seqOnes : ℕ
  currentProb : ℕ
  prevBit : Bool
  prevEven : Bool
  prevOdd : Bool
  okToUse : Bool

/-- `infnoise_health_init`, when the four tables are allocated. -/
def infnoiseHealthInit : Health where
  onesEven := fun _ => 0
  zerosEven := fun _ => 0
  onesOdd := fun _ => 0
  zerosOdd := fun _ => 0
  prevBits := 0
  numBitsSampled := 0
  numBitsOfEntropy := 0
  entropyLevel := 0
  totalBits := 0
  totalOnes := 0
  totalZeros := 0
  evenMisfires := 0
  oddMisfires := 0
  seqZeros := 0
  seqOnes := 0
  currentProb := fpOne
  prevBit := false
  prevEven := false
  prevOdd := false
  okToUse := false

/-- `infnoise_health_reset`. -/
def infnoiseHealthReset (h : Health) : Health :=
  { h with
    numBitsSampled := 0
    currentProb := fpOne
    numBitsOfEntropy := 0
    entropyLevel := 0
    totalOnes := 0
    totalZeros := 0
    evenMisfires := 0
    oddMisfires := 0 }

/-- `infnoise_health_clear_entropy`. -/
def infnoiseHealthClearEntropy (h : Health) : Health := { h with entropyLevel := 0 }

/-- `infnoise_health_get_entropy`. -/
def infnoiseHealthGetEntropy (h : Health) : ℕ := h.entropyLevel

/-! ### Scaling -/

/-- Halve the entries of a table, which has `INM_TABLE_SIZE` of them. -/
def halveTable (t : ℕ → ℕ) (i : ℕ) : ℕ := if i < inmTableSize then t i >>> 1 else t i

def scaleStats (h : Health) : Health :=
  { h with
    zerosEven := halveTable h.zerosEven
    onesEven := halveTable h.onesEven
    zerosOdd := halveTable h.zerosOdd
    onesOdd := halveTable h.onesOdd }

def scaleEntropy (h : Health) : Health :=
  if h.numBitsSampled ≥ inmMinData then
    { h with
      numBitsOfEntropy := h.numBitsOfEntropy >>> 1
      numBitsSampled := h.numBitsSampled >>> 1
      evenMisfires := h.evenMisfires >>> 1
      oddMisfires := h.oddMisfires >>> 1 }
  else h

def scaleZeroOneCounts (h : Health) : Health :=
  if max h.totalZeros h.totalOnes ≥ inmMinData then
    { h with totalZeros := h.totalZeros >>> 1, totalOnes := h.totalOnes >>> 1 }
  else h

/-! ### Verdicts -/

def infnoiseHealthEstimateEntropyPerBit (h : Health) : ℕ :=
  if h.numBitsSampled = 0 then 0 else fpDiv h.numBitsOfEntropy h.numBitsSampled

def infnoiseHealthOk (h : Health) : Bool :=
  if h.totalBits < inmMinData then false
  else
    let entropy := infnoiseHealthEstimateEntropyPerBit h
    let lowerBound := fpDiv inmExpectedEntropyFp inmAccuracyFp
    let upperBound := fpMul inmExpectedEntropyFp inmAccuracyFp
    decide (entropy ≥ lowerBound) && decide (entropy ≤ upperBound)

/-- `infnoise_health_entropy_on_target`; the comparison is made on 32-bit words. -/
def infnoiseHealthEntropyOnTarget (entropy numBits : ℕ) : Bool :=
  let expected := fpMul (u32 (numBits <<< fpShift)) inmExpectedEntropyFp >>> fpShift
  decide (u32 (entropy * inmAccuracyFp) ≥ u32 (expected <<< fpShift))

/-! ### `infnoise_health_add_bit` -/

/-- The comparator bit a sample contributes. -/
def selectBit (evenBit oddBit even : Bool) : Bool := if even then evenBit else oddBit

/-- Record the sample: misfires, totals, and the context of the next prediction. -/
def Health.observe (h : Health) (evenBit oddBit even : Bool) : Health :=
  { h with
    evenMisfires :=
      if even && (evenBit != h.prevEven) then u32 (h.evenMisfires + 1) else h.evenMisfires
    oddMisfires :=
      if !even && (oddBit != h.prevOdd) then u32 (h.oddMisfires + 1) else h.oddMisfires
    prevEven := evenBit
    prevOdd := oddBit
    totalBits := u64 (h.totalBits + 1)
    prevBits := (u32 (h.prevBits <<< 1) ||| h.prevBit.toNat) &&& (inmTableSize - 1)
    prevBit := selectBit evenBit oddBit even }

/-- The stuck-at check: `true` when a run of equal bits is too long. -/
def Health.checkStuck (h : Health) (bit : Bool) : Bool × Health :=
  if h.numBitsSampled > inmMinSampleSize then
    if bit then
      let h := { h with
        totalOnes := u32 (h.totalOnes + 1), seqOnes := u32 (h.seqOnes + 1), seqZeros := 0 }
      (decide (h.seqOnes > inmMaxSequence), h)
    else
      let h := { h with
        totalZeros := u32 (h.totalZeros + 1), seqZeros := u32 (h.seqZeros + 1), seqOnes := 0 }
      (decide (h.seqZeros > inmMaxSequence), h)
  else (false, h)

/-- Multiply the probability by the frequency of the observed bit in its context. -/
def Health.updateProb (h : Health) (bit even : Bool) : Health :=
  let zeros := if even then h.zerosEven h.prevBits else h.zerosOdd h.prevBits
  let ones := if even then h.onesEven h.prevBits else h.onesOdd h.prevBits
  let total := u32 (zeros + ones)
  if total > 0 then
    if bit then
      if ones > 0 then { h with currentProb := fpMul h.currentProb (fpDiv ones total) } else h
    else
      if zeros > 0 then { h with currentProb := fpMul h.currentProb (fpDiv zeros total) } else h
  else h

/-- The body of the doubling loop: one more bit of entropy. -/
def Health.countBit (h : Health) : Health :=
  { h with
    currentProb := u32 (h.currentProb <<< 1)
    numBitsOfEntropy := u32 (h.numBitsOfEntropy + 1)
    entropyLevel := if h.okToUse then u32 (h.entropyLevel + 1) else h.entropyLevel }

/-- `while (health->current_prob <= FP_HALF)`, for at most `fuel` rounds; `none` when the
condition still holds after them. -/
def doublingLoop : ℕ → Health → Option Health
  | 0, h => if h.currentProb ≤ fpHalf then none else some h
  | fuel + 1, h => if h.currentProb ≤ fpHalf then doublingLoop fuel h.countBit else some h

/-- A non-zero 32-bit probability passes one half within 16 doublings and zero never does, so
running out of these rounds means that the loop does not end. -/
@[simp] def doublingFuel : ℕ := 32

/-- Count the observed bit in the table of its context. -/
def Health.updateTables (h : Health) (bit even : Bool) : Health :=
  if bit then
    if even then
      let h := { h with
        onesEven := Function.update h.onesEven h.prevBits (u32 (h.onesEven h.prevBits + 1)) }
      if h.onesEven h.prevBits ≥ inmMaxCount then scaleStats h else h
    else
      let h := { h with
        onesOdd := Function.update h.onesOdd h.prevBits (u32 (h.onesOdd h.prevBits + 1)) }
      if h.onesOdd h.prevBits ≥ inmMaxCount then scaleStats h else h
  else
    if even then
      let h := { h with
        zerosEven := Function.update h.zerosEven h.prevBits (u32 (h.zerosEven h.prevBits + 1)) }
      if h.zerosEven h.prevBits ≥ inmMaxCount then scaleStats h else h
    else
      let h := { h with
        zerosOdd := Function.update h.zerosOdd h.prevBits (u32 (h.zerosOdd h.prevBits + 1)) }
      if h.zerosOdd h.prevBits ≥ inmMaxCount then scaleStats h else h

/-- The sample counter goes up once the doubling loop is over. -/
def Health.countSample (h : Health) : Health :=
  { h with numBitsSampled := u32 (h.numBitsSampled + 1) }

/-- The end of the call: the verdict on the state reached. -/
def Health.updateStatus (h : Health) : Health := { h with okToUse := infnoiseHealthOk h }

/-- What follows the doubling loop. -/
def Health.finishBit (h : Health) (bit even : Bool) : Health :=
  (scaleZeroOneCounts (scaleEntropy (h.countSample.updateTables bit even))).updateStatus

/-- The state in which the doubling loop is entered. -/
def Health.enterLoop (h : Health) (evenBit oddBit even : Bool) : Health :=
  let bit := selectBit evenBit oddBit even
  ((h.observe evenBit oddBit even).checkStuck bit).2.updateProb bit even

/-- `infnoise_health_add_bit`: whether the check still holds, and the state left; `none` when
the doubling loop does not end. -/
def infnoiseHealthAddBit (h : Health) (evenBit oddBit even : Bool) : Option (Bool × Health) :=
  let bit := selectBit evenBit oddBit even
  match (h.observe evenBit oddBit even).checkStuck bit with
  | (true, h) => some (false, h)
  | (false, h) =>
    (doublingLoop doublingFuel (h.updateProb bit even)).map fun h => (true, h.finishBit bit even)

end Kernel
