import Infnoise.Userspace.Startup
import Infnoise.Windows.Driver

/-!
# The bits that the Windows program extracts

`extractBytes` of the Windows program gives the health checker the samples that the library gives
it. Into the bytes it packs the bit of the comparator that is not selected, so they hold the bits
that were checked just if both comparators read the same.
-/

namespace Windows

open Core
open Core.ShiftRegister (bit)
open Kernel (Sample evenBitOf oddBitOf sampleAt samplesOf)
open Userspace (HealthState Follows predictionBits designK inmHealthCheckStart inmClearEntropyLevel
  inmGetEntropyLevel tableLog tableLog_accurate blankContext inmHealthCheckStart_fed fedBits
  fedBits_zero misfiresAfter addBit_following followingRound comparators sampleAt_comparators)

/-- The bit of a sample that goes into the bytes. -/
def packedBit (x : Sample) : Bool := if x.even then x.oddBit else x.evenBit

/-- It is the bit of the other comparator than the one the health checker selects. -/
lemma packedBit_eq_iff (x : Sample) : packedBit x = x.bit ↔ x.evenBit = x.oddBit := by
  rw [packedBit, Sample.bit, Kernel.selectBit]
  cases x.even
  · simp
  · simp [eq_comm]

/-! ### The extraction -/

lemma extractBit_eq (inBuf : ℕ → Byte) :
    extractBit inBuf =
      packBit HealthState.addBit (sampleAt inBuf) fun k => packedBit (sampleAt inBuf k) := by
  funext i j s
  have hparity : (i * 8 + j) % 2 = j % 2 := by omega
  simp only [packBit, HealthState.addBit, sampleAt, packedBit, hparity]
  rfl

lemma extractByte_eq (inBuf : ℕ → Byte) :
    extractByte inBuf =
      packByte HealthState.addBit (sampleAt inBuf) fun k => packedBit (sampleAt inBuf k) := by
  funext i s
  rw [extractByte, extractBit_eq, packByte]

/-- An extraction that succeeds has checked every sample. -/
lemma extractBytes_checked {health health' : HealthState} {bytes bytes' inBuf : ℕ → Byte}
    {entropy : ℕ} (h : extractBytes health bytes inBuf = some (.ok entropy, bytes', health')) :
    Checked HealthState.addBit (samplesOf inBuf 64) (inmClearEntropyLevel health) health' ∧
      Packed (fun k => packedBit (sampleAt inBuf k)) bytes' 64 ∧
      entropy = inmGetEntropyLevel health' := by
  rw [extractBytes, Option.map_eq_some_iff] at h
  obtain ⟨⟨ok, bytes₁, health₁⟩, hloop, heq⟩ := h
  cases ok
  · cases heq
  · cases heq
    rw [extractByte_eq] at hloop
    obtain ⟨hchecked, hpacked⟩ := checked_pack hloop
    exact ⟨hchecked, hpacked, rfl⟩

/-- Samples that all pass let the extraction succeed. -/
lemma extractBytes_of_checked {health health' : HealthState} {inBuf : ℕ → Byte} (bytes : ℕ → Byte)
    (hchecked : Checked HealthState.addBit (samplesOf inBuf 64) (inmClearEntropyLevel health)
      health') :
    ∃ bytes', extractBytes health bytes inBuf =
      some (.ok (inmGetEntropyLevel health'), bytes', health') := by
  obtain ⟨bytes', hloop⟩ := pack_of_checked bytes hchecked
  refine ⟨bytes', ?_⟩
  rw [extractBytes, extractByte_eq, show Userspace.buflen / 8 = 64 from rfl, hloop]
  rfl

/-- What both extractions of the same samples have packed. -/
lemma extractBytes_both {context : Userspace.Context} {hc : HealthState} {inBuf : ℕ → Byte}
    (bytes : ℕ → Byte) (hchecked : Checked HealthState.addBit (samplesOf inBuf 64)
      (inmClearEntropyLevel context.health) hc) :
    ∃ winBytes libBytes,
      extractBytes context.health bytes inBuf =
        some (.ok (inmGetEntropyLevel hc), winBytes, hc) ∧
      Userspace.extractBytes context bytes 64 inBuf = some (true, libBytes,
        { context with health := hc, entropyThisTime := inmGetEntropyLevel hc }) ∧
      Packed (fun k => packedBit (sampleAt inBuf k)) winBytes 64 ∧
      Packed (fun k => (sampleAt inBuf k).bit) libBytes 64 := by
  obtain ⟨winBytes, hwin⟩ := extractBytes_of_checked bytes hchecked
  obtain ⟨libBytes, hlib⟩ := Userspace.extractBytes_of_checked bytes hchecked
  exact ⟨winBytes, libBytes, hwin, hlib, (extractBytes_checked hwin).2.1,
    (Userspace.extractBytes_checked hlib).2⟩

section

variable {context : Userspace.Context} {hc : HealthState} {inBuf : ℕ → Byte}
  {cs : List (Call HealthState Sample Bool)}

/-- When no bit of the samples fails, both extractions succeed. The bytes are the same, and hold the
bits that the health checker observed, just if in every sample both comparators read the same. -/
theorem extractBytes_observed_iff (bytes : ℕ → Byte)
    (hrun : Run HealthState.addBit (inmClearEntropyLevel context.health) cs hc)
    (hin : cs.map Call.input = samplesOf inBuf 64) (hok : ∀ c ∈ cs, c.output = true) :
    ∃ winBytes libBytes,
      extractBytes context.health bytes inBuf = some (.ok hc.entropyLevel, winBytes, hc) ∧
      Userspace.extractBytes context bytes 64 inBuf = some (true, libBytes,
        { context with health := hc, entropyThisTime := hc.entropyLevel }) ∧
      ((∀ i < 64, winBytes i = libBytes i) ∧
          (bitsOfBytes winBytes 64 = cs.map fun c => c.after.prevBit) ↔
        ∀ k < 512, evenBitOf (inBuf k) = oddBitOf (inBuf k)) := by
  obtain ⟨winBytes, libBytes, hwin, hlib, hwinPacked, hlibPacked⟩ :=
    extractBytes_both bytes ⟨cs, hrun, hin, hok⟩
  refine ⟨winBytes, libBytes, hwin, hlib, ?_⟩
  have hbits : (∀ i < 64, winBytes i = libBytes i) ↔
      ∀ k < 512, evenBitOf (inBuf k) = oddBitOf (inBuf k) := by
    rw [hwinPacked.eq_iff hlibPacked]
    apply forall_congr'
    intro k
    apply imp_congr_right
    intro _
    exact packedBit_eq_iff (sampleAt inBuf k)
  rw [hbits, and_iff_left_iff_imp]
  intro hsame
  -- equal bytes hold the same bits, and those of the library are the observed ones
  have hobserved := Userspace.bitsOfBytes_observed
    (fun _ _ _ _ => HealthState.addBit_prevBit) hrun hin hlibPacked
  rw [← hobserved, hwinPacked.bitsOfBytes_eq, hlibPacked.bitsOfBytes_eq]
  apply List.map_congr_left
  intro k hk
  exact (packedBit_eq_iff (sampleAt inBuf k)).mpr (hsame k (List.mem_range.mp hk))

end

/-! ### A device whose comparators are opposite -/

/-- The selected comparator reads the bits of the register, and the other one the opposite. -/
def oppositeByte (n : ℕ) : Byte :=
  if n % 2 = 1 then comparators (bit n) (!bit n) else comparators (!bit n) (bit n)

lemma sampleAt_oppositeByte (n : ℕ) :
    sampleAt oppositeByte n =
      if n % 2 = 1 then ⟨bit n, !bit n, true⟩ else ⟨!bit n, bit n, false⟩ := by
  split_ifs with h
  · rw [sampleAt_comparators (if_pos h), h]
    rfl
  · rw [sampleAt_comparators (if_neg h), Nat.mod_two_ne_one.mp h]
    rfl

lemma follows_oppositeByte : Follows oppositeByte := by
  intro n
  rw [sampleAt_oppositeByte]
  split_ifs
  · rfl
  · rfl

lemma packedBit_oppositeByte (n : ℕ) : packedBit (sampleAt oppositeByte n) = !bit n := by
  rw [sampleAt_oppositeByte]
  split_ifs
  · rfl
  · rfl

/-- A context whose health checker has just been started. -/
def startedContext : Userspace.Context :=
  { blankContext with
    health := (inmHealthCheckStart tableLog blankContext.health predictionBits designK false
      true).2 }

lemma startedContext_withMisfires (byte : ℕ → Byte) :
    (inmClearEntropyLevel startedContext.health).withMisfires
      (misfiresAfter byte ⟨0, 0, false, false⟩ 0) = inmClearEntropyLevel startedContext.health := rfl

attribute [local irreducible] fedBits misfiresAfter

/-- From the start no bit of a first block fails whose selected comparators follow the register. -/
lemma exists_checked_following {byte : ℕ → Byte} (hfollows : Follows byte) :
    ∃ hc, Checked HealthState.addBit (samplesOf byte 64)
      (inmClearEntropyLevel startedContext.health) hc := by
  obtain ⟨q, hfed⟩ := inmHealthCheckStart_fed tableLog_accurate blankContext.health rfl rfl false
  have hchecked := Checked.range (S := fun k =>
      (fedBits (512 * 0) (inmClearEntropyLevel startedContext.health) k).withMisfires
        (misfiresAfter byte ⟨0, 0, false, false⟩ (512 * 0 + k))) (n := 512)
    fun k hk => addBit_following hfollows _ hfed.clearEntropy rfl (by norm_num) hk
  have hinBuf : (followingRound byte (512 * 0)).inBuf = byte := by
    funext k
    simp [followingRound]
  have hsamples : (List.range 512).map (sampleAt byte) = samplesOf byte 64 := rfl
  rw [hinBuf, hsamples, fedBits_zero, Nat.mul_zero, Nat.zero_add, startedContext_withMisfires]
    at hchecked
  exact ⟨_, hchecked⟩

/-- A first block whose comparators both read the bits of the register. -/
theorem extractBytes_observed_register : ∃ (hc : HealthState) (winBytes libBytes : ℕ → Byte)
    (cs : List (Call HealthState Sample Bool)),
    extractBytes startedContext.health (fun _ => 0) (fun k => Kernel.sampleOf (bit k)) =
      some (.ok hc.entropyLevel, winBytes, hc) ∧
    Userspace.extractBytes startedContext (fun _ => 0) 64 (fun k => Kernel.sampleOf (bit k)) =
      some (true, libBytes,
        { startedContext with health := hc, entropyThisTime := hc.entropyLevel }) ∧
    (∀ i < 64, winBytes i = libBytes i) ∧
    (bitsOfBytes winBytes 64 = cs.map fun c => c.after.prevBit) := by
  have hfollows : Follows fun k => Kernel.sampleOf (bit k) := by
    intro n
    simp only [sampleAt, Sample.bit, Kernel.evenBitOf_sampleOf, Kernel.oddBitOf_sampleOf,
      Kernel.selectBit, ite_self]
  obtain ⟨hc, cs, hrun, hin, hok⟩ := exists_checked_following hfollows
  obtain ⟨winBytes, libBytes, hwin, hlib, hiff⟩ :=
    extractBytes_observed_iff (fun _ => 0) hrun hin hok
  have hsame : ∀ k < 512, evenBitOf (Kernel.sampleOf (bit k)) =
      oddBitOf (Kernel.sampleOf (bit k)) := by
    intro k _
    rw [Kernel.evenBitOf_sampleOf, Kernel.oddBitOf_sampleOf]
  obtain ⟨hbytes, hbits⟩ := hiff.mpr hsame
  exact ⟨hc, winBytes, libBytes, cs, hwin, hlib, hbytes, hbits⟩

/-- A first block in which no bit fails and every bit of the bytes is the opposite of the one that
the health checker observed. -/
theorem extractBytes_opposite : ∃ (hc : HealthState) (winBytes libBytes : ℕ → Byte)
    (cs : List (Call HealthState Sample Bool)),
    Run HealthState.addBit (inmClearEntropyLevel startedContext.health) cs hc ∧
    cs.map Call.input = samplesOf oppositeByte 64 ∧ (∀ c ∈ cs, c.output = true) ∧
    extractBytes startedContext.health (fun _ => 0) oppositeByte =
      some (.ok hc.entropyLevel, winBytes, hc) ∧
    Userspace.extractBytes startedContext (fun _ => 0) 64 oppositeByte = some (true, libBytes,
      { startedContext with health := hc, entropyThisTime := hc.entropyLevel }) ∧
    (bitsOfBytes winBytes 64 = cs.map fun c => !c.after.prevBit) ∧
    ¬ ((∀ i < 64, winBytes i = libBytes i) ∧
      bitsOfBytes winBytes 64 = cs.map fun c => c.after.prevBit) := by
  obtain ⟨hc, hchecked⟩ := exists_checked_following follows_oppositeByte
  obtain ⟨winBytes, libBytes, hwin, hlib, hwinPacked, hlibPacked⟩ :=
    extractBytes_both (fun _ => 0) hchecked
  obtain ⟨cs, hrun, hin, hok⟩ := hchecked
  refine ⟨hc, winBytes, libBytes, cs, hrun, hin, hok, hwin, hlib, ?_, ?_⟩
  · have hobserved := hrun.map_after (f := Sample.bit) fun _ _ _ _ => HealthState.addBit_prevBit
    have hnot : (cs.map fun c => !c.after.prevBit) =
        (cs.map fun c => c.after.prevBit).map (!·) := by
      rw [List.map_map]
      rfl
    rw [hnot, hobserved, hin, hwinPacked.bitsOfBytes_eq, samplesOf, List.map_map, List.map_map]
    apply List.map_congr_left
    intro k _
    rw [packedBit_oppositeByte, Function.comp_apply, Function.comp_apply, follows_oppositeByte]
  · rintro ⟨hbytes, -⟩
    have hfirst := (hwinPacked.eq_iff hlibPacked).mp hbytes 0 (by norm_num)
    rw [packedBit_oppositeByte, follows_oppositeByte] at hfirst
    cases h : bit 0 <;> simp [h] at hfirst

end Windows
