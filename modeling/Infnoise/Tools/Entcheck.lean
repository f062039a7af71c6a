import Infnoise.Userspace.Health

/-!
# The offline entropy tool

Model of `entcheck.c`, which estimates the entropy of the bytes on its standard input. Its
statistics and their scaling are those of `healthcheck.c`, copied and generalised from two tables to
a number of streams. Its messages are left out.
-/

namespace Tools

open Core
open Userspace (inmMinData inmMaxCount halveTable)

/-- The static variables of the tool. The tables are functions of the stream and the context. -/
structure Entcheck where
  inmN : ℕ
  inmNumStreams : ℕ
  inmPrevBits : ℕ
  inmNumBitsSampled : ℕ
  inmOnes : ℕ → ℕ → ℕ
  inmZeros : ℕ → ℕ → ℕ
  inmNumBitsOfEntropy : ℕ
  inmCurrentProbability : Float
  inmTotalBits : ℕ
  inmPrevBit : Bool
  inmTotalOnes : ℕ
  inmTotalZeros : ℕ
  inmDebug : Bool

namespace Entcheck

/-! ### Start -/

def resetStats (s : Entcheck) : Entcheck :=
  { s with
    inmNumBitsSampled := 0
    inmCurrentProbability := 1.0
    inmNumBitsOfEntropy := 0
    inmTotalOnes := 0
    inmTotalZeros := 0 }

/-- `inmEntCheckStart`. `allocated` says whether the tables could be allocated. -/
def inmEntCheckStart (s : Entcheck) (n numStreams : ℕ) (debug allocated : Bool) : Bool × Entcheck :=
  if n < 1 ∨ n > 30 then (false, s)
  else
    let s := { s with
      inmDebug := debug
      inmNumBitsOfEntropy := 0
      inmCurrentProbability := 1.0
      inmN := n
      inmNumStreams := numStreams
      inmPrevBits := 0
      inmOnes := fun _ _ => 0
      inmZeros := fun _ _ => 0 }
    if allocated then (true, resetStats { s with inmTotalBits := 0, inmPrevBit := false })
    else (false, s)

/-! ### Scaling -/

/-- Halve the tables of the streams. -/
def halveStreams (numStreams n : ℕ) (t : ℕ → ℕ → ℕ) (i : ℕ) : ℕ → ℕ :=
  if i < numStreams then halveTable n (t i) else t i

def scaleStats (s : Entcheck) : Entcheck :=
  { s with
    inmZeros := halveStreams s.inmNumStreams s.inmN s.inmZeros
    inmOnes := halveStreams s.inmNumStreams s.inmN s.inmOnes }

def scaleEntropy (s : Entcheck) : Entcheck :=
  if s.inmNumBitsSampled = inmMinData then
    { s with
      inmNumBitsOfEntropy := s.inmNumBitsOfEntropy >>> 1
      inmNumBitsSampled := s.inmNumBitsSampled >>> 1 }
  else s

def scaleZeroOneCounts (s : Entcheck) : Entcheck :=
  let maxVal := if s.inmTotalZeros ≥ s.inmTotalOnes then s.inmTotalZeros else s.inmTotalOnes
  if maxVal = inmMinData then
    { s with inmTotalZeros := s.inmTotalZeros >>> 1, inmTotalOnes := s.inmTotalOnes >>> 1 }
  else s

/-! ### `inmEntCheckAddBit` -/

/-- Count the bit, and shift the one before it into the context of the next prediction. -/
def observe (s : Entcheck) (bit : Bool) : Entcheck :=
  let shifted := u32 (s.inmPrevBits <<< 1) &&& ((1 <<< s.inmN) - 1)
  { s with
    inmTotalBits := u64 (s.inmTotalBits + 1)
    inmPrevBits := if s.inmPrevBit then shifted ||| 1 else shifted
    inmPrevBit := bit }

/-- The totals, once there are enough samples. -/
def countTotals (s : Entcheck) (bit : Bool) : Entcheck :=
  if s.inmNumBitsSampled > 100 then
    if bit then { s with inmTotalOnes := u32 (s.inmTotalOnes + 1) }
    else { s with inmTotalZeros := u32 (s.inmTotalZeros + 1) }
  else s

/-- Multiply the probability by the frequency of the observed bit in its context. -/
def updateProbability (s : Entcheck) (bit : Bool) (stream : ℕ) : Entcheck :=
  let numZeros := s.inmZeros stream s.inmPrevBits
  let numOnes := s.inmOnes stream s.inmPrevBits
  let total := u32 (numZeros + numOnes)
  if bit then
    if numOnes ≠ 0 then
      { s with
        inmCurrentProbability :=
          s.inmCurrentProbability * (Float.ofNat numOnes / Float.ofNat total) }
    else s
  else
    if numZeros ≠ 0 then
      { s with
        inmCurrentProbability :=
          s.inmCurrentProbability * (Float.ofNat numZeros / Float.ofNat total) }
    else s

/-- The body of the doubling loop. -/
def countBit (s : Entcheck) : Entcheck :=
  { s with
    inmCurrentProbability := s.inmCurrentProbability * 2.0
    inmNumBitsOfEntropy := u32 (s.inmNumBitsOfEntropy + 1) }

/-- `while(inmCurrentProbability <= 0.5)`, for at most `fuel` rounds; `none` when the condition
still holds after them. -/
def doublingLoop : ℕ → Entcheck → Option Entcheck
  | 0, s => if s.inmCurrentProbability ≤ 0.5 then none else some s
  | fuel + 1, s => if s.inmCurrentProbability ≤ 0.5 then doublingLoop fuel s.countBit else some s

/-- Count the observed bit in the table of its stream and context. -/
def updateTables (s : Entcheck) (bit : Bool) (stream : ℕ) : Entcheck :=
  if bit then
    let s := { s with
      inmOnes := Function.update s.inmOnes stream (Function.update (s.inmOnes stream) s.inmPrevBits
        (u32 (s.inmOnes stream s.inmPrevBits + 1))) }
    if s.inmOnes stream s.inmPrevBits = inmMaxCount then scaleStats s else s
  else
    let s := { s with
      inmZeros := Function.update s.inmZeros stream (Function.update (s.inmZeros stream)
        s.inmPrevBits (u32 (s.inmZeros stream s.inmPrevBits + 1))) }
    if s.inmZeros stream s.inmPrevBits = inmMaxCount then scaleStats s else s

/-- The sample counter goes up once the doubling loop is over. -/
def countSample (s : Entcheck) : Entcheck :=
  { s with inmNumBitsSampled := u32 (s.inmNumBitsSampled + 1) }

/-- What follows the doubling loop. -/
def finishBit (s : Entcheck) (bit : Bool) (stream : ℕ) : Entcheck :=
  scaleZeroOneCounts (scaleEntropy (s.countSample.updateTables bit stream))

/-- `inmEntCheckAddBit`, which returns `true`; `none` when the doubling loop does not end. -/
def inmEntCheckAddBit (s : Entcheck) (bit : Bool) : Option (Bool × Entcheck) :=
  let stream := s.inmTotalBits % s.inmNumStreams
  (doublingLoop Userspace.doublingFuel
    (((s.observe bit).countTotals bit).updateProbability bit stream)).map
      fun s => (true, s.finishBit bit stream)

/-! ### The input -/

/-- Bit `i` of a byte, from the highest one on. The result is not used. -/
def addValueBit (value : Byte) (s : Entcheck) (i : ℕ) : Option Entcheck :=
  (inmEntCheckAddBit s ((value &&& ((1 : Byte) <<< (7 - i))) != 0)).map Prod.snd

/-- One round of the loop of `main`. -/
def addValue (s : Entcheck) (value : Byte) : Option Entcheck :=
  (List.range 8).foldlM (addValueBit value) s

/-- `main` with its arguments read: the exit status and the statics at the end of the input; `none`
when a doubling loop does not end. -/
def main (s : Entcheck) (n numStreams : ℕ) (allocated : Bool) (input : List Byte) :
    Option (ℕ × Entcheck) :=
  match inmEntCheckStart s n numStreams true allocated with
  | (false, s) => some (1, s)
  | (true, s) => (input.foldlM addValue s).map fun s => (0, s)

end Entcheck

end Tools
