import Infnoise.Kernel.Warmup
import Infnoise.Userspace.Fed

/-!
# The library on the shift register

On a device whose samples follow the shift register `initInfnoise` succeeds after at most 371 rounds,
and the block after them is used.
-/

namespace Userspace

open Core Core.Binary64 Core.ShiftRegister Core.Meter Reference
open Kernel (sampleOf sampleAt infnoiseHealthInit)

attribute [local irreducible] keccakPermutation keccakAbsorb keccakExtract

/-! ### A block -/

/-- The samples of the register from bit `t` on, read in no time. -/
def registerRound (t : ℕ) : UsbScript where
  start := ⟨0, 0⟩
  write := 512
  read := 512
  inBuf := fun k => sampleOf (bit (t + k))
  stop := ⟨0, 0⟩

lemma registerRound_inTime (t : ℕ) : ¬ (registerRound t).late := by
  change ¬ Float.ofNat maxMicrosecForSamples < diffTime ⟨0, 0⟩ ⟨0, 0⟩
  decide +kernel

/-- What a block of the register leaves. -/
def Context.extract (context : Context) (t : ℕ) : Context :=
  let health := fedBits t (inmClearEntropyLevel context.health) 512
  { context with health, entropyThisTime := inmGetEntropyLevel health }

lemma addBit_fed {q : ℚ} {j : ℕ} {hc : HealthState} (hfed : hc.Fed q (512 * j))
    (hlevel : hc.entropyLevel = 0) (hj : j < 373) {k : ℕ} (hk : k < 512) :
    (fedBits (512 * j) hc k).addBit (sampleAt (registerRound (512 * j)).inBuf k) =
      some (true, fedBits (512 * j) hc (k + 1)) := by
  have hparity : (k % 2 == 1) = decide ((512 * j + k) % 2 = 1) := by
    have hmod : (512 * j + k) % 2 = k % 2 := by omega
    rw [hmod]
    rfl
  obtain ⟨hfed', hle⟩ := hfed.bits hlevel (k := k) (by omega)
  obtain ⟨hadd, _⟩ := hfed'.addBit (by omega) (by omega)
  simp only [HealthState.addBit, sampleAt, registerRound, Kernel.evenBitOf_sampleOf,
    Kernel.oddBitOf_sampleOf, hparity, hadd]
  rfl

attribute [local irreducible] fedBits

section

variable {q : ℚ} {j : ℕ} {context : Context} (hfed : context.health.Fed q (512 * j)) (hj : j < 373)

include hfed hj

/-- No bit of the block fails. -/
lemma extractBytes_fed (bytes : ℕ → Byte) :
    ∃ bytes', extractBytes context bytes 64 (registerRound (512 * j)).inBuf =
      some (true, bytes', context.extract (512 * j)) := by
  have hchecked := Checked.range (S := fedBits (512 * j) (inmClearEntropyLevel context.health))
    (n := 512) fun k hk => addBit_fed hfed.clearEntropy rfl hj hk
  rw [fedBits_zero] at hchecked
  exact extractBytes_of_checked bytes hchecked

/-- The samples make a block. -/
lemma exists_block (hgiven : context.keccakBytesGiven = 0) :
    ∃ bytes, context.Block (registerRound (512 * j)) true bytes (context.extract (512 * j)) := by
  obtain ⟨bytes, hextract⟩ := extractBytes_fed hfed hj fun _ => 0
  exact ⟨bytes, ⟨hgiven, rfl, rfl⟩, registerRound_inTime _, hextract⟩

end

/-! ### The warm-up -/

/-- A context after `j` blocks in which the rate was not reached. -/
structure Context.Warming (q : ℚ) (j : ℕ) (context : Context) : Prop where
  fed : context.health.Fed q (512 * j)
  low : Low (okRate q) j context.health.numBitsOfEntropy
  given_eq : context.keccakBytesGiven = 0

section

variable {q : ℚ} {j : ℕ} {context : Context} (h : context.Warming q j)

include h

lemma Context.Warming.excess_lt (hnot : inmHealthCheckOkToUseData context.health = false)
    (hj : 157 ≤ j) : excess (okRate q) (512 * j) context.health.numBitsOfEntropy < 1 / 20 := by
  by_contra hge
  have h600 := h.low hj
  rw [h.fed.ok_of_excess (by omega) (not_lt.mp hge) (by linarith)] at hnot
  cases hnot

/-- A block of the warm-up. -/
lemma Context.Warming.extract (hj : j < 372)
    (hnot : inmHealthCheckOkToUseData context.health = false) :
    (context.extract (512 * j)).Warming q (j + 1) := by
  have hcleared := h.fed.clearEntropy
  obtain ⟨hfed, _⟩ := hcleared.bits rfl (k := 512) (by omega)
  have hlow := (hcleared.path rfl (by omega)).low (le_okRate h.fed.le_expected) hj hfed.bounds
    fun hj157 => by
      rw [fedBits_zero]
      exact h.excess_lt hnot hj157
  exact ⟨hfed, hlow, h.given_eq⟩

end

/-- A read of the warm-up leaves what its block has left, but for the entropy of this time. -/
lemma Context.Block.read_warmup {script : UsbScript} {bytes : ℕ → Byte} {context context' : Context}
    (hinv : context.health.Inv) (hblock : context.Block script true bytes context') :
    ∃ r entropyThisTime, Userspace.readData context script none true 1 = some r ∧
      r.context = { context' with entropyThisTime } := by
  obtain ⟨r, hread, _⟩ := readData_returns hinv script none true 1
  rcases readData_step hread with
    ⟨_, husb⟩ | ⟨_, hlate⟩ | ⟨hblock'⟩ | ⟨hblock', _⟩ | ⟨hblock', _⟩ | ⟨hgiven⟩
  · exact absurd hblock.toSampled husb
  · exact absurd hlate hblock.inTime
  · cases (hblock.unique hblock').1
  · obtain ⟨_, _, rfl⟩ := hblock.unique hblock'
    exact ⟨_, _, hread, rfl⟩
  · obtain ⟨_, _, rfl⟩ := hblock.unique hblock'
    rw [processBytes_raw, Context.capEntropy_eq] at hread
    exact ⟨_, _, hread, rfl⟩
  · exact absurd hblock.given_eq (Nat.ne_of_gt hgiven)

section

variable {q : ℚ} {j : ℕ} {context : Context} (h : context.Warming q j)

include h

/-- A round of the warm-up. -/
lemma Context.Warming.next (hj : j < 372)
    (hnot : inmHealthCheckOkToUseData context.health = false) :
    ∃ r, readData context (registerRound (512 * j)) none true 1 = some r ∧
      r.context.Warming q (j + 1) := by
  obtain ⟨bytes, hblock⟩ := exists_block h.fed (by omega) h.given_eq
  obtain ⟨r, e, hread, hr⟩ := hblock.read_warmup h.fed.inv
  have hwarming := h.extract hj hnot
  exact ⟨r, hread, by rw [hr]; exact ⟨hwarming.fed, hwarming.low, hwarming.given_eq⟩⟩

/-- The rate is reached before round 371. -/
lemma Context.Warming.ne_last : j ≠ 371 := h.low.lt (okRate_le h.fed.expected_le) h.fed.bounds

end

/-- From the start the warm-up goes on until the check holds. -/
lemma Context.Warming.exists_warm {q : ℚ} {context : Context} (h : context.Warming q 0) {fuel : ℕ}
    (hfuel : 371 ≤ fuel) :
    ∃ k context', 157 ≤ k ∧ k < 372 ∧ context'.Warming q k ∧
      inmHealthCheckOkToUseData context'.health = true ∧
      warmupLoop fuel (fun i => registerRound (512 * i)) 0 context = some (k, context') := by
  have hnext : ∀ j < 371, ∀ context : Context, context.Warming q j →
      inmHealthCheckOkToUseData context.health = false →
      ∃ r, readData context (registerRound (512 * j)) none true 1 = some r ∧
        r.context.Warming q (j + 1) := fun j hj context h => h.next (by omega)
  have hdone : ∀ context : Context, context.Warming q 371 →
      inmHealthCheckOkToUseData context.health = true := fun context h => absurd rfl h.ne_last
  obtain ⟨k, context', hk, hwarm, hok, hloop⟩ :=
    warmupLoop_keepsUp (P := Warming q) (by norm_num) hnext hdone h (Nat.zero_add 371) hfuel
  have h157 := (hwarm.fed.excess_of_ok hok (by omega)).1
  simp only [Nat.zero_add] at hloop
  exact ⟨k, context', by omega, by omega, hwarm, hok, hloop⟩

/-! ### The start -/

/-- A device that is found and configured, and gives the samples of the register. -/
def registerScript : InitScript where
  allocated := true
  usb := ⟨1, 0, 0, 0, 64, 64, true⟩
  retry := ⟨1, 0, 0, 0, 64, 64, true⟩
  rounds := fun i => registerRound (512 * i)

/-- The checker that `initInfnoise` starts, on memory in which no comparator has been seen. -/
lemma inmHealthCheckStart_fed {log : Float → Float} (hlog : LogAccurate log) (memory : HealthState)
    (heven : memory.prevEven = false) (hodd : memory.prevOdd = false) (debug : Bool) :
    ∃ q, (inmHealthCheckStart log memory predictionBits designK debug true).2.Fed q 0 := by
  obtain ⟨q, hq, hlow, hhigh⟩ := hlog.bounds
  have hmemory : { memory with prevEven := false, prevOdd := false } = memory := by
    obtain ⟨⟩ := memory
    cases heven
    cases hodd
    rfl
  have hmatched := matched_fresh log memory designK debug
  rw [freshChecker, hmemory] at hmatched
  exact ⟨q, ⟨_, Kernel.infnoiseHealthInit_fed, rfl, hmatched⟩, hq, hlow, hhigh, bounds_zero,
    Nat.zero_le _⟩

/-- On that device `initInfnoise` succeeds. -/
theorem exists_initInfnoise {log : Float → Float} (hlog : LogAccurate log) (context₀ : Context)
    (heven : context₀.health.prevEven = false) (hodd : context₀.health.prevOdd = false)
    (serial : Option String) (keccak debug : Bool) {fuel : ℕ} (hfuel : 371 ≤ fuel) :
    ∃ q j context, 157 ≤ j ∧ j < 372 ∧ context.Warming q j ∧
      inmHealthCheckOkToUseData context.health = true ∧
      initInfnoise log context₀ serial keccak debug registerScript fuel = some (true, context) := by
  obtain ⟨context, hbefore⟩ : ∃ context, beforeWarmup log context₀ serial keccak debug
      registerScript = .ok context := by
    simp only [beforeWarmup, inmHealthCheckStart, initializeUSB, registerScript]
    exact ⟨_, rfl⟩
  obtain ⟨hhealth, hgiven, _⟩ := beforeWarmup_cases hbefore
  obtain ⟨q, hfed⟩ := inmHealthCheckStart_fed hlog _ heven hodd debug
  have hwarming : context.Warming q 0 :=
    ⟨by rw [hhealth]; exact hfed, fun h157 => absurd h157 (by norm_num), hgiven⟩
  obtain ⟨j, context', h157, h372, hwarm, hok, hloop⟩ := hwarming.exists_warm hfuel
  exact ⟨q, j, context', h157, h372, hwarm, hok,
    initInfnoise_of_warmupLoop hbefore hloop (by simp only [maxWarmupRounds]; omega)⟩

/-- The warm-up of that device ends as it should. -/
theorem warmupEnds_register : ∃ context context',
    beforeWarmup tableLog blankContext none true false registerScript = .ok context ∧
    initInfnoise tableLog blankContext none true false registerScript 371 = some (true, context') ∧
    WarmupEnds tableLog blankContext none true false registerScript := by
  obtain ⟨_, _, context', -, -, -, -, hinit⟩ := exists_initInfnoise tableLog_accurate blankContext
    rfl rfl none true false le_rfl
  have hends := hinit
  rw [initInfnoise_eq] at hends
  rcases hbefore : beforeWarmup tableLog blankContext none true false registerScript with
    context | context
  · rw [hbefore] at hends
    cases hends
  · rw [hbefore] at hends
    obtain ⟨_, hloop, _⟩ := Option.map_eq_some_iff.mp hends
    obtain ⟨n, hn, hreads, _, hok⟩ := warmupLoop_eq_some hloop (Nat.zero_lt_succ _)
    refine ⟨context, context', rfl, hinit, (warmupEnds_iff ..).mpr fun context₁ hbefore₁ => ?_⟩
    cases hbefore.symm.trans hbefore₁
    exact ⟨n, by simp only [maxWarmupRounds]; omega, _, hreads, hok⟩

/-! ### The block after the warm-up -/

section

variable {q : ℚ} {j : ℕ} {context : Context} (h157 : 157 ≤ j) (h372 : j < 372)

include h157 h372

/-- A block that starts with the rate reached, and not by far exceeded, is on target. -/
lemma HealthState.Fed.accepts (hfed : context.health.Fed q (512 * j))
    (h0 : 0 ≤ excess (okRate q) (512 * j) context.health.numBitsOfEntropy)
    (h700 : excess (okRate q) (512 * j) context.health.numBitsOfEntropy ≤ 700) :
    (context.extract (512 * j)).accepts = true := by
  have hcleared := hfed.clearEntropy
  have hlow := le_okRate hfed.le_expected
  have hhigh := okRate_le hfed.expected_le
  have hpath := hcleared.path rfl (by omega)
  obtain ⟨hafter, hle⟩ := hcleared.bits rfl (k := 512) (by omega)
  have hstart : (fedBits (512 * j) (inmClearEntropyLevel context.health) 0).numBitsOfEntropy =
      context.health.numBitsOfEntropy := by
    rw [fedBits_zero]
    rfl
  rw [← hstart] at h0 h700
  obtain ⟨hexcess, hexcess'⟩ := hpath.excess_bounds hlow hhigh h157 h372 h0 h700 (k := 512)
    (by norm_num) le_rfl
  have hlevel := hpath.le_level hlow hhigh h157 h372 h0 h700
  have hstarted : (context.extract (512 * j)).health.Started :=
    ⟨q, hafter.expected, hafter.le_expected, hafter.expected_le⟩
  rw [Context.accepts, Bool.and_eq_true]
  exact ⟨hafter.ok_of_excess (by omega) hexcess (by linarith),
    (inmEntropyOnTarget_iff hstarted (lt_of_le_of_lt hle (by norm_num))).mpr hlevel⟩

lemma Context.Warming.accepts (h : context.Warming q j)
    (hok : inmHealthCheckOkToUseData context.health = true) :
    (context.extract (512 * j)).accepts = true :=
  h.fed.accepts h157 h372 (h.fed.excess_of_ok hok (by omega)).2
    ((h.low h157).trans (by norm_num))

end

/-! ### A library that starts -/

/-- A library that starts, and the block of its first call, whatever the arguments. -/
theorem exists_accepted (serial : Option String) (keccak debug : Bool) {fuel : ℕ}
    (hfuel : 371 ≤ fuel) :
    ∃ context script bytes context',
      initInfnoise tableLog blankContext serial keccak debug registerScript fuel =
        some (true, context) ∧
      context.Block script true bytes context' ∧ context'.accepts = true ∧
      ∀ (result : Option (ℕ → Byte)) (raw : Bool) (outputMultiplier : ℕ),
        readData context script result raw outputMultiplier =
          some ((processBytes context' bytes result raw outputMultiplier).toRead
            (some script.inBuf)) := by
  obtain ⟨q, j, context, h157, h372, hwarming, hok, hinit⟩ := exists_initInfnoise
    tableLog_accurate blankContext rfl rfl serial keccak debug hfuel
  obtain ⟨bytes, hblock⟩ := exists_block hwarming.fed (by omega) hwarming.given_eq
  have haccepts := hwarming.accepts h157 h372 hok
  exact ⟨context, registerRound (512 * j), bytes, context.extract (512 * j), hinit, hblock,
    haccepts, fun result raw outputMultiplier => hblock.readData haccepts result raw outputMultiplier⟩

end Userspace
