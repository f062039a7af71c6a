import Infnoise.Userspace.Misfires
import Infnoise.Userspace.Register

/-!
# Any comparators on the shift register

A sample selects one of the two comparators. What the other one reads, and what was in memory when
the health checker was started, matters to the misfires only. On a device whose selected comparators
follow the shift register `initInfnoise` succeeds, and `misfiresAfter` counts the misfires.
-/

namespace Userspace

open Core Core.Meter Reference
open Core.ShiftRegister (bit)
open Kernel (sampleAt sampleOf)

attribute [local irreducible] keccakPermutation keccakAbsorb keccakExtract

/-! ### The device -/

/-- The selected comparators of the samples read the bits of the register. -/
def Follows (byte : ℕ → Byte) : Prop := ∀ n, (sampleAt byte n).bit = bit n

/-- A block of the samples, from sample `t` on. -/
def followingRound (byte : ℕ → Byte) (t : ℕ) : UsbScript :=
  { registerRound t with inBuf := fun k => byte (t + k) }

/-- A device that is found and configured, and gives these samples. -/
def followingScript (byte : ℕ → Byte) : InitScript :=
  { registerScript with rounds := fun i => followingRound byte (512 * i) }

lemma sampleAt_followingRound (byte : ℕ → Byte) (j k : ℕ) :
    sampleAt (followingRound byte (512 * j)).inBuf k = sampleAt byte (512 * j + k) := by
  have hmod : (512 * j + k) % 2 = k % 2 := by omega
  simp only [sampleAt, followingRound, hmod]

lemma sampleAt_registerRound (j k : ℕ) :
    (sampleAt (registerRound (512 * j)).inBuf k).bit = bit (512 * j + k) ∧
      (sampleAt (registerRound (512 * j)).inBuf k).even = (k % 2 == 1) := by
  refine ⟨?_, rfl⟩
  simp only [sampleAt, registerRound, Kernel.Sample.bit, Kernel.evenBitOf_sampleOf,
    Kernel.oddBitOf_sampleOf, Kernel.selectBit, ite_self]

/-! ### The misfires -/

/-- The misfires after `n` samples that all pass, from `m` on. -/
def misfiresAfter (byte : ℕ → Byte) (m : Misfires) : ℕ → Misfires
  | 0 => m
  | n + 1 => (misfiresAfter byte m n).after (samples n) (sampleAt byte n) true

def Context.withMisfires (context : Context) (m : Misfires) : Context :=
  { context with health := context.health.withMisfires m }

/-- A context of the warm-up on such a device. -/
def Context.WarmingOn (byte : ℕ → Byte) (m : Misfires) (q : ℚ) (j : ℕ) (context : Context) : Prop :=
  ∃ c : Context, c.Warming q j ∧ context = c.withMisfires (misfiresAfter byte m (512 * j))

lemma HealthState.Inv.withMisfires {hc : HealthState} (hinv : hc.Inv) (m : Misfires) :
    (hc.withMisfires m).Inv where
  n_eq := hinv.n_eq
  table_lt := hinv.table_lt
  prevBits_lt := hinv.prevBits_lt
  probability := hinv.probability

section

variable {byte : ℕ → Byte} (hfollows : Follows byte) (m : Misfires)

include hfollows

/-- A bit passes as it does from the register. -/
lemma addBit_following {q : ℚ} {j k : ℕ} {hc : HealthState} (hfed : hc.Fed q (512 * j))
    (hlevel : hc.entropyLevel = 0) (hj : j < 373) (hk : k < 512) :
    ((fedBits (512 * j) hc k).withMisfires (misfiresAfter byte m (512 * j + k))).addBit
        (sampleAt (followingRound byte (512 * j)).inBuf k) =
      some (true, (fedBits (512 * j) hc (k + 1)).withMisfires
        (misfiresAfter byte m (512 * j + (k + 1)))) := by
  obtain ⟨hbit, heven⟩ := sampleAt_registerRound j k
  have hsampled := (hfed.bits hlevel (k := k) (by omega)).1.numBitsSampled_eq
  have heven' : (sampleAt (followingRound byte (512 * j)).inBuf k).even =
      (sampleAt (registerRound (512 * j)).inBuf k).even := rfl
  have hbit' : (sampleAt (followingRound byte (512 * j)).inBuf k).bit =
      (sampleAt (registerRound (512 * j)).inBuf k).bit := by
    rw [sampleAt_followingRound, hfollows, hbit]
  rw [HealthState.addBit_withMisfires _ _ heven' hbit', addBit_fed hfed hlevel hj hk, hsampled,
    sampleAt_followingRound]
  rfl

attribute [local irreducible] fedBits misfiresAfter

variable {q : ℚ} {j : ℕ} {context : Context}

/-- The samples make the block that the register makes. -/
lemma exists_block_following (hfed : context.health.Fed q (512 * j)) (hj : j < 373)
    (hgiven : context.keccakBytesGiven = 0) :
    ∃ bytes, (context.withMisfires (misfiresAfter byte m (512 * j))).Block
      (followingRound byte (512 * j)) true bytes
      ((context.extract (512 * j)).withMisfires (misfiresAfter byte m (512 * (j + 1)))) := by
  obtain ⟨c, hc⟩ : ∃ c, c = context.withMisfires (misfiresAfter byte m (512 * j)) := ⟨_, rfl⟩
  have hchecked := Checked.range (S := fun k =>
      (fedBits (512 * j) (inmClearEntropyLevel context.health) k).withMisfires
        (misfiresAfter byte m (512 * j + k))) (n := 512)
    fun k hk => addBit_following hfollows m hfed.clearEntropy rfl hj hk
  have hstart : inmClearEntropyLevel c.health =
      (inmClearEntropyLevel context.health).withMisfires (misfiresAfter byte m (512 * j)) := by
    rw [hc]
    rfl
  have hsamples : (List.range 512).map (sampleAt (followingRound byte (512 * j)).inBuf) =
      Kernel.samplesOf (followingRound byte (512 * j)).inBuf 64 := rfl
  rw [fedBits_zero, Nat.add_zero, ← Nat.mul_succ, ← hstart, hsamples] at hchecked
  obtain ⟨bytes, hextract⟩ := extractBytes_of_checked (fun _ => 0) hchecked
  rw [← hc]
  refine ⟨bytes, ⟨?_, rfl, rfl⟩, registerRound_inTime (512 * j), hextract.trans ?_⟩
  · rw [hc]
    exact hgiven
  · rw [hc]
    rfl

/-- A round of the warm-up. -/
lemma Context.WarmingOn.next (h : context.WarmingOn byte m q j) (hj : j < 372)
    (hnot : inmHealthCheckOkToUseData context.health = false) :
    ∃ r, readData context (followingRound byte (512 * j)) none true 1 = some r ∧
      r.context.WarmingOn byte m q (j + 1) := by
  obtain ⟨context, h, rfl⟩ := h
  obtain ⟨bytes, hblock⟩ := exists_block_following hfollows m h.fed (by omega) h.given_eq
  obtain ⟨r, entropyThisTime, hread, hr⟩ := hblock.read_warmup (h.fed.inv.withMisfires _)
  have hwarming := h.extract hj hnot
  exact ⟨r, hread, { context.extract (512 * j) with entropyThisTime },
    ⟨hwarming.fed, hwarming.low, hwarming.given_eq⟩, hr⟩

/-- From the start the warm-up goes on until the check holds. -/
lemma Context.Warming.exists_warm_following (h : context.Warming q 0) {fuel : ℕ}
    (hfuel : 371 ≤ fuel) :
    ∃ (k : ℕ) (context' : Context), 157 ≤ k ∧ k < 372 ∧ context'.Warming q k ∧
      warmupLoop fuel (fun i => followingRound byte (512 * i)) 0 (context.withMisfires m) =
        some (k, context'.withMisfires (misfiresAfter byte m (512 * k))) := by
  have hnext : ∀ j < 371, ∀ c : Context, c.WarmingOn byte m q j →
      inmHealthCheckOkToUseData c.health = false →
      ∃ r, readData c (followingRound byte (512 * j)) none true 1 = some r ∧
        r.context.WarmingOn byte m q (j + 1) := fun j hj c h => h.next hfollows m (by omega)
  have hdone : ∀ c : Context, c.WarmingOn byte m q 371 →
      inmHealthCheckOkToUseData c.health = true := by
    rintro _ ⟨c, hc, -⟩
    exact absurd rfl hc.ne_last
  have hstart : (context.withMisfires m).WarmingOn byte m q 0 :=
    ⟨context, h, by rw [misfiresAfter]⟩
  obtain ⟨k, _, hk, ⟨c, hwarm, rfl⟩, hok, hloop⟩ := warmupLoop_keepsUp
    (P := fun j c => c.WarmingOn byte m q j) (by norm_num) hnext hdone hstart (Nat.zero_add 371)
    hfuel
  have h157 := (hwarm.fed.excess_of_ok hok (by omega)).1
  simp only [Nat.zero_add] at hloop
  exact ⟨k, c, by omega, by omega, hwarm, hloop⟩

end

/-! ### The start -/

/-- On such a device `initInfnoise` succeeds, whatever was in memory. -/
theorem exists_initInfnoise_following {log : Float → Float} (hlog : LogAccurate log)
    {byte : ℕ → Byte} (hfollows : Follows byte) (context₀ : Context) (serial : Option String)
    (keccak debug : Bool) {fuel : ℕ} (hfuel : 371 ≤ fuel) :
    ∃ (q : ℚ) (j : ℕ) (context : Context), 157 ≤ j ∧ j < 372 ∧ context.Warming q j ∧
      initInfnoise log context₀ serial keccak debug (followingScript byte) fuel =
        some (true, context.withMisfires (misfiresAfter byte
          ⟨0, 0, context₀.health.prevEven, context₀.health.prevOdd⟩ (512 * j))) := by
  obtain ⟨context, hbefore⟩ : ∃ context, beforeWarmup log context₀ serial keccak debug
      (followingScript byte) = .ok context := by
    simp only [beforeWarmup, inmHealthCheckStart, initializeUSB, followingScript, registerScript]
    exact ⟨_, rfl⟩
  obtain ⟨hhealth, hgiven, _⟩ := beforeWarmup_cases hbefore
  -- the checker is one started on cleared memory, with the comparators that were in memory
  obtain ⟨q, hfed⟩ := inmHealthCheckStart_fed hlog
    { context₀.health with prevEven := false, prevOdd := false } rfl rfl debug
  have hcontext : context = Context.withMisfires
      { context with health := (inmHealthCheckStart log
        { context₀.health with prevEven := false, prevOdd := false } predictionBits designK debug
        true).2 } ⟨0, 0, context₀.health.prevEven, context₀.health.prevOdd⟩ := by
    obtain ⟨_, _, _, _, _, _, _⟩ := context
    cases hhealth
    rfl
  have hwarming : Context.Warming q 0 { context with health := (inmHealthCheckStart log
      { context₀.health with prevEven := false, prevOdd := false } predictionBits designK debug
      true).2 } := ⟨hfed, fun h157 => absurd h157 (by norm_num), hgiven⟩
  obtain ⟨j, context', h157, h372, hwarm, hloop⟩ :=
    hwarming.exists_warm_following hfollows _ hfuel
  rw [← hcontext] at hloop
  exact ⟨q, j, context', h157, h372, hwarm,
    initInfnoise_of_warmupLoop hbefore hloop (by simp only [maxWarmupRounds]; omega)⟩

end Userspace
