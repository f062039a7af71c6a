import Infnoise.Tools.Entcheck
import Infnoise.Userspace.Extraction
import Infnoise.Userspace.Register

/-!
# The offline tool agrees with the health checker

`entcheck` reads the bits of the samples back from the bytes that `extractBytes` has packed them
into, and finds the comparator of a bit from the number of bits before it. Given the bytes of a
checker none of whose calls has failed, it ends in the state of the checker: with two streams,
stream 0 has the odd tables and stream 1 the even ones.
-/

namespace Tools

open Core
open Userspace (HealthState Context halveTable)

/-! ### The state of the tool that a checker stands for -/

/-- The tables of two streams. -/
def streamTables (odd even : ℕ → ℕ) : ℕ → ℕ → ℕ
  | 0 => odd
  | 1 => even
  | _ + 2 => fun _ => 0

/-- The statistics of a checker, in the tool. -/
def offline (hc : HealthState) : Entcheck where
  inmN := hc.n
  inmNumStreams := 2
  inmPrevBits := hc.prevBits
  inmNumBitsSampled := hc.numBitsSampled
  inmOnes := streamTables hc.onesOdd hc.onesEven
  inmZeros := streamTables hc.zerosOdd hc.zerosEven
  inmNumBitsOfEntropy := hc.numBitsOfEntropy
  inmCurrentProbability := hc.currentProbability
  inmTotalBits := hc.totalBits
  inmPrevBit := hc.prevBit
  inmTotalOnes := hc.totalOnes
  inmTotalZeros := hc.totalZeros
  inmDebug := true

lemma streamTables_zero : streamTables (fun _ => 0) (fun _ => 0) = fun _ _ => 0 := by
  funext i
  match i with
  | 0 | 1 | _ + 2 => rfl

lemma update_streamTables_odd (odd even t : ℕ → ℕ) :
    Function.update (streamTables odd even) 0 t = streamTables t even := by
  funext i
  match i with
  | 0 | 1 | _ + 2 => rfl

lemma update_streamTables_even (odd even t : ℕ → ℕ) :
    Function.update (streamTables odd even) 1 t = streamTables odd t := by
  funext i
  match i with
  | 0 | 1 | _ + 2 => rfl

lemma halveStreams_streamTables (n : ℕ) (odd even : ℕ → ℕ) :
    Entcheck.halveStreams 2 n (streamTables odd even) =
      streamTables (halveTable n odd) (halveTable n even) := by
  funext i
  match i with
  | 0 | 1 | _ + 2 => rfl

/-! ### One bit -/

lemma offline_scaleStats (hc : HealthState) :
    (offline hc).scaleStats = offline (Userspace.scaleStats hc) := by
  rw [Entcheck.scaleStats]
  simp only [offline, halveStreams_streamTables]
  rfl

lemma offline_scaleEntropy (hc : HealthState) :
    (offline hc).scaleEntropy = offline (Userspace.scaleEntropy hc) := by
  rw [Userspace.scaleEntropy, apply_ite offline]
  rfl

lemma offline_scaleZeroOneCounts (hc : HealthState) :
    (offline hc).scaleZeroOneCounts = offline (Userspace.scaleZeroOneCounts hc) := by
  rw [Userspace.scaleZeroOneCounts, apply_ite offline]
  rfl

lemma offline_observe (hc : HealthState) (x : Kernel.Sample) :
    (offline hc).observe x.bit = offline (hc.observe x.evenBit x.oddBit x.even) := rfl

/-- The stuck-at check counts the bit, whatever its verdict. -/
lemma offline_countTotals (hc : HealthState) (bit : Bool) :
    (offline hc).countTotals bit = offline (hc.checkStuck bit).2 := by
  rw [HealthState.checkStuck]
  by_cases hs : hc.numBitsSampled > 100
  · rw [if_pos hs]
    refine (if_pos hs).trans ?_
    cases bit
    · simp only [Bool.false_eq_true, if_false, apply_ite Prod.snd]
      split_ifs <;> rfl
    · simp only [if_true, apply_ite Prod.snd]
      split_ifs <;> rfl
  · rw [if_neg hs]
    exact if_neg hs

lemma offline_updateProbability (hc : HealthState) (bit even : Bool) :
    (offline hc).updateProbability bit even.toNat = offline (hc.updateProbability bit even) := by
  cases bit <;> cases even <;>
    simp only [HealthState.updateProbability, Bool.false_eq_true, if_true, if_false,
      apply_ite offline] <;>
    rfl

lemma offline_countBit (hc : HealthState) : (offline hc).countBit = offline hc.countBit := by
  rw [HealthState.countBit_eq]
  rfl

lemma offline_doublingLoop (fuel : ℕ) (hc : HealthState) :
    (offline hc).doublingLoop fuel = (Userspace.doublingLoop fuel hc).map offline := by
  induction fuel generalizing hc with
  | zero =>
    rw [Userspace.doublingLoop, apply_ite (Option.map offline)]
    rfl
  | succ fuel ih =>
    rw [Userspace.doublingLoop, apply_ite (Option.map offline), ← ih, ← offline_countBit]
    rfl

lemma offline_onesOdd (hc : HealthState) (t : ℕ → ℕ) : offline { hc with onesOdd := t } =
    { offline hc with inmOnes := Function.update (offline hc).inmOnes 0 t } := by
  simp only [offline, update_streamTables_odd]

lemma offline_zerosOdd (hc : HealthState) (t : ℕ → ℕ) : offline { hc with zerosOdd := t } =
    { offline hc with inmZeros := Function.update (offline hc).inmZeros 0 t } := by
  simp only [offline, update_streamTables_odd]

lemma offline_onesEven (hc : HealthState) (t : ℕ → ℕ) : offline { hc with onesEven := t } =
    { offline hc with inmOnes := Function.update (offline hc).inmOnes 1 t } := by
  simp only [offline, update_streamTables_even]

lemma offline_zerosEven (hc : HealthState) (t : ℕ → ℕ) : offline { hc with zerosEven := t } =
    { offline hc with inmZeros := Function.update (offline hc).inmZeros 1 t } := by
  simp only [offline, update_streamTables_even]

lemma offline_updateTables (hc : HealthState) (bit even : Bool) :
    (offline hc).updateTables bit even.toNat = offline (hc.updateTables bit even) := by
  cases bit <;> cases even <;>
    simp only [HealthState.updateTables, Bool.false_eq_true, if_true, if_false, apply_ite offline,
      ← offline_scaleStats]
  · rw [offline_zerosOdd hc (Function.update _ _ _)]
    rfl
  · rw [offline_zerosEven hc (Function.update _ _ _)]
    rfl
  · rw [offline_onesOdd hc (Function.update _ _ _)]
    rfl
  · rw [offline_onesEven hc (Function.update _ _ _)]
    rfl

lemma offline_finishBit (hc : HealthState) (bit even : Bool) :
    (offline hc).finishBit bit even.toNat = offline (hc.finishBit bit even) := by
  have hsample : (offline hc).countSample = offline hc.countSample := rfl
  rw [Entcheck.finishBit, hsample, offline_updateTables, offline_scaleEntropy,
    offline_scaleZeroOneCounts, HealthState.finishBit]

/-- A bit that does not fail is the same to both, when the comparator is the one the tool finds. -/
lemma offline_addBit {hc hc' : HealthState} {x : Kernel.Sample}
    (hadd : hc.addBit x = some (true, hc')) (heven : hc.totalBits % 2 = x.even.toNat) :
    (offline hc).inmEntCheckAddBit x.bit = some (true, offline hc') := by
  have hstream : (offline hc).inmTotalBits % (offline hc).inmNumStreams = x.even.toNat := heven
  have hentered : (((offline hc).observe x.bit).countTotals x.bit).updateProbability x.bit
      x.even.toNat = offline (hc.enterLoop x.evenBit x.oddBit x.even) := by
    rw [offline_observe, offline_countTotals, offline_updateProbability]
    rfl
  rcases Userspace.inmHealthCheckAddBit_returned hadd with ⟨hok, -⟩ | ⟨-, -, hc₁, hloop, rfl⟩
  · cases hok
  · rw [Entcheck.inmEntCheckAddBit, hstream, hentered, offline_doublingLoop, hloop]
    exact congrArg some (Prod.ext rfl (offline_finishBit hc₁ x.bit x.even))

/-! ### The bytes -/

/-- The mask of `main` picks the bits from the highest one on. -/
lemma addValueBit_eq (value : Byte) (s : Entcheck) (i : ℕ) :
    Entcheck.addValueBit value s i =
      (s.inmEntCheckAddBit (value.getLsbD (7 - i))).map Prod.snd := by
  have hmask : value &&& ((1 : Byte) <<< (7 - i)) =
      if value.getLsbD (7 - i) then (1 : Byte) <<< (7 - i) else 0 := BitVec.and_twoPow value (7 - i)
  have hne : (1 : Byte) <<< (7 - i) ≠ 0 := by
    have hlt : 7 - i < 8 := by omega
    generalize 7 - i = k at hlt
    revert k
    decide
  rw [Entcheck.addValueBit, hmask]
  cases value.getLsbD (7 - i)
  · rfl
  · rw [if_pos rfl, bne_iff_ne.mpr hne]

/-- The loop of `main` gives every bit of the bytes to the tool. -/
lemma foldlM_addValue (bytes : ℕ → Byte) (length : ℕ) (s : Entcheck) :
    ((List.range length).map bytes).foldlM Entcheck.addValue s =
      (bitsOfBytes bytes length).foldlM
        (fun s bit => (s.inmEntCheckAddBit bit).map Prod.snd) s := by
  induction length with
  | zero => rfl
  | succ length ih =>
    rw [List.range_succ, List.map_append, List.foldlM_append, ih, bitsOfBytes_succ,
      List.foldlM_append]
    congr 1
    funext t
    have hvalue : Entcheck.addValue t (bytes length) = (List.range 8).foldlM
        (fun s i => (s.inmEntCheckAddBit ((bytes length).getLsbD (7 - i))).map Prod.snd) t := by
      rw [Entcheck.addValue]
      congr 1
      funext u i
      exact addValueBit_eq (bytes length) u i
    simp [hvalue, List.foldlM_map]

/-- The bytes of an extraction that succeeds take the tool where the extraction takes the
checker. -/
lemma offline_extractBytes {context context' : Context} {bytes bytes' inBuf : ℕ → Byte}
    {length : ℕ}
    (h : Userspace.extractBytes context bytes length inBuf = some (true, bytes', context'))
    (heven : context.health.totalBits % 2 = 0) :
    ((List.range length).map bytes').foldlM Entcheck.addValue (offline context.health) =
      some (offline context'.health) ∧ context'.health.totalBits % 2 = 0 := by
  obtain ⟨hchecked, hpacked⟩ := Userspace.extractBytes_checked h
  obtain ⟨t, hfold, rfl, hparity⟩ := hchecked.foldlM_range
    (R := fun k hc t => t = offline hc ∧ hc.totalBits % 2 = k % 2)
    (f := fun s bit => (s.inmEntCheckAddBit bit).map Prod.snd)
    (g := fun k => (Kernel.sampleAt inBuf k).bit) (t := offline context.health)
    (by
      rintro k hc hc' _ hadd ⟨rfl, hparity⟩
      have hcomparator : hc.totalBits % 2 = (Kernel.sampleAt inBuf k).even.toNat := by
        rw [hparity, Kernel.sampleAt]
        rcases Nat.mod_two_eq_zero_or_one k with hk | hk <;> rw [hk] <;> rfl
      refine ⟨_, congrArg (Option.map Prod.snd) (offline_addBit hadd hcomparator), rfl, ?_⟩
      have htotal := (HealthState.addBit_observed hadd).2
      simp only [u64] at htotal
      omega)
    ⟨rfl, heven⟩
  rw [foldlM_addValue, hpacked.bitsOfBytes_eq]
  exact ⟨hfold, by omega⟩

/-! ### Runs of extractions -/

/-- `extractBytes` of the samples of a buffer, as a machine that is given the memory for the bytes
and the buffer. -/
def extractStep (context : Context) (buffers : (ℕ → Byte) × (ℕ → Byte)) :
    Option ((Bool × (ℕ → Byte)) × Context) :=
  (Userspace.extractBytes context buffers.1 64 buffers.2).map
    fun (ok, bytes, context) => ((ok, bytes), context)

/-- The bytes of the calls of a run, one after the other. -/
def extractedBytes
    (cs : List (Call Context ((ℕ → Byte) × (ℕ → Byte)) (Bool × (ℕ → Byte)))) : List Byte :=
  cs.flatMap fun c => (List.range 64).map c.output.2

variable {context context' : Context}
  {cs : List (Call Context ((ℕ → Byte) × (ℕ → Byte)) (Bool × (ℕ → Byte)))}

lemma offline_run (h : Run extractStep context cs context') (hok : ∀ c ∈ cs, c.output.1 = true)
    (heven : context.health.totalBits % 2 = 0) :
    (extractedBytes cs).foldlM Entcheck.addValue (offline context.health) =
      some (offline context'.health) := by
  induction h with
  | nil => rfl
  | @cons context₀ context₁ context' buffers out cs hcall _ ih =>
    rw [List.forall_mem_cons] at hok
    obtain ⟨⟨ok, bytes, context₂⟩, hextract, heq⟩ := Option.map_eq_some_iff.mp hcall
    cases heq
    obtain rfl : ok = true := hok.1
    obtain ⟨hfold, heven'⟩ := offline_extractBytes hextract heven
    have hbytes : extractedBytes (⟨context₀, buffers, (true, bytes), context₁⟩ :: cs) =
        (List.range 64).map bytes ++ extractedBytes cs := rfl
    rw [hbytes, List.foldlM_append, hfold]
    exact ih hok.2 heven'

lemma inmEntCheckStart_offline (s : Entcheck) (log : Float → Float) (memory : HealthState)
    (k : Float) (debug : Bool) :
    s.inmEntCheckStart Userspace.predictionBits 2 true true = (true, offline
      (Userspace.inmHealthCheckStart log memory Userspace.predictionBits k debug true).2) := by
  rw [Userspace.inmHealthCheckStart, if_neg (by decide)]
  refine (if_neg (by decide)).trans ?_
  simp only [offline, Userspace.resetStats, streamTables_zero]
  rfl

/-- The statistics of the tool with two streams are those of a checker. -/
structure SameStatistics (s : Entcheck) (hc : HealthState) : Prop where
  ones_zero : s.inmOnes 0 = hc.onesOdd
  zeros_zero : s.inmZeros 0 = hc.zerosOdd
  ones_one : s.inmOnes 1 = hc.onesEven
  zeros_one : s.inmZeros 1 = hc.zerosEven
  prevBits_eq : s.inmPrevBits = hc.prevBits
  prevBit_eq : s.inmPrevBit = hc.prevBit
  numBitsSampled_eq : s.inmNumBitsSampled = hc.numBitsSampled
  totalOnes_eq : s.inmTotalOnes = hc.totalOnes
  totalZeros_eq : s.inmTotalZeros = hc.totalZeros
  totalBits_eq : s.inmTotalBits = hc.totalBits
  numBitsOfEntropy_eq : s.inmNumBitsOfEntropy = hc.numBitsOfEntropy
  currentProbability_eq : s.inmCurrentProbability = hc.currentProbability

lemma sameStatistics_offline (hc : HealthState) : SameStatistics (offline hc) hc :=
  ⟨rfl, rfl, rfl, rfl, rfl, rfl, rfl, rfl, rfl, rfl, rfl, rfl⟩

/-- The tool, started with 14 bits and two streams and given the bytes of any number of buffers on
which the checker has not failed, reads to the end and has the statistics of the checker. -/
theorem entcheck_agrees (s : Entcheck) {log : Float → Float} {memory : HealthState} {k : Float}
    {debug : Bool} (hstart : context.health =
      (Userspace.inmHealthCheckStart log memory Userspace.predictionBits k debug true).2)
    (h : Run extractStep context cs context') (hok : ∀ c ∈ cs, c.output.1 = true) :
    ∃ t, s.main 14 2 true (extractedBytes cs) = some (0, t) ∧
      SameStatistics t context'.health := by
  refine ⟨offline context'.health, ?_, sameStatistics_offline _⟩
  have hnew : s.inmEntCheckStart 14 2 true true = (true, offline context.health) :=
    hstart ▸ inmEntCheckStart_offline s log memory k debug
  have heven : context.health.totalBits % 2 = 0 := by
    rw [hstart]
    rfl
  rw [Entcheck.main, hnew]
  exact congrArg (Option.map fun s => (0, s)) (offline_run h hok heven)

/-- A checker that is given the first block of the register. -/
theorem entcheck_agrees_register : ∃ cs context t,
    Run extractStep
      { Userspace.blankContext with health := (Userspace.inmHealthCheckStart Userspace.tableLog
        Userspace.blankContext.health Userspace.predictionBits Userspace.designK false true).2 }
      cs context ∧
    cs.length = 1 ∧
    (offline Userspace.blankContext.health).main 14 2 true (extractedBytes cs) = some (0, t) ∧
    SameStatistics t context.health := by
  obtain ⟨q, hfed⟩ := Userspace.inmHealthCheckStart_fed Userspace.tableLog_accurate
    Userspace.blankContext.health rfl rfl false
  obtain ⟨bytes, hextract⟩ := @Userspace.extractBytes_fed q 0
    { Userspace.blankContext with health := _ } hfed (by norm_num) fun _ => 0
  have hcall : extractStep { Userspace.blankContext with health := _ }
      (fun _ => 0, (Userspace.registerRound (512 * 0)).inBuf) = some ((true, bytes), _) :=
    congrArg (Option.map _) hextract
  obtain ⟨t, hmain, hsame⟩ := entcheck_agrees (offline Userspace.blankContext.health) rfl
    (.single hcall) (by simp)
  exact ⟨_, _, t, .single hcall, rfl, hmain, hsame⟩

end Tools
