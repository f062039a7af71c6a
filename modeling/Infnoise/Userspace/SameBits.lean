import Infnoise.Kernel.Warmup
import Infnoise.Userspace.Extraction
import Infnoise.Userspace.Register

/-!
# The two drivers extract the same bits

`extractBytes` and `infnoise_extract_bytes` choose the comparator of a sample twice: once for the
bit they pack into a byte, and once, in the health checker, for the bit they count. The four choices
agree. The bytes are the same in the two drivers, and they hold the bits that were checked.
-/

namespace Userspace

open Core Core.ShiftRegister
open Kernel (Health Device sampleOf sampleAt samplesOf infnoiseExtractBytes
  infnoiseHealthClearEntropy)

section

variable {dev : Device} {context : Context} {inBuf : ℕ → Byte} {h : Health} {hc : HealthState}
  {cs : List (Call Health Kernel.Sample Bool)} {ds : List (Call HealthState Kernel.Sample Bool)}

/-- When no bit of the samples fails in either checker, both extractions succeed and leave the same
64 bytes, and these hold the bits that the checkers observed, in the order of the samples. -/
theorem extractions_agree (bytes : ℕ → Byte)
    (hk : Run Health.addBit (infnoiseHealthClearEntropy dev.health) cs h)
    (hkin : cs.map Call.input = samplesOf inBuf 64) (hkok : ∀ c ∈ cs, c.output = true)
    (hu : Run HealthState.addBit (inmClearEntropyLevel context.health) ds hc)
    (huin : ds.map Call.input = samplesOf inBuf 64) (huok : ∀ d ∈ ds, d.output = true) :
    ∃ outBuf bytes',
      infnoiseExtractBytes dev 64 inBuf =
        some (.ok h.entropyLevel, { dev with outBuf, health := h }) ∧
      extractBytes context bytes 64 inBuf = some (true, bytes',
        { context with health := hc, entropyThisTime := hc.entropyLevel }) ∧
      (∀ i < 64, outBuf i = bytes' i) ∧
      (bitsOfBytes outBuf 64 = cs.map fun c => c.after.prevBit) ∧
      (bitsOfBytes bytes' 64 = ds.map fun d => d.after.prevBit) := by
  obtain ⟨outBuf, hextract⟩ := Kernel.infnoiseExtractBytes_of_checked ⟨cs, hk, hkin, hkok⟩
  obtain ⟨bytes', hextract'⟩ := extractBytes_of_checked bytes ⟨ds, hu, huin, huok⟩
  obtain ⟨-, hpacked, -⟩ := Kernel.infnoiseExtractBytes_checked hextract
  obtain ⟨-, hpacked'⟩ := extractBytes_checked hextract'
  refine ⟨outBuf, bytes', hextract, hextract', ?_, ?_, ?_⟩
  · exact fun i hi => (hpacked i hi).trans (hpacked' i hi).symm
  · exact bitsOfBytes_observed (fun _ _ _ _ => Health.addBit_prevBit) hk hkin hpacked
  · exact bitsOfBytes_observed (fun _ _ _ _ => HealthState.addBit_prevBit) hu huin hpacked'

end

/-- Both checkers, set up and given the first block of the register. -/
theorem extractions_agree_register : ∃ (dev : Device) (context : Context) (outBuf bytes : ℕ → Byte)
    (cs : List (Call Health Kernel.Sample Bool)) (ds : List (Call HealthState Kernel.Sample Bool))
    (h : Health) (hc : HealthState),
    infnoiseExtractBytes dev 64 (fun k => sampleOf (bit k)) =
      some (.ok h.entropyLevel, { dev with outBuf, health := h }) ∧
    extractBytes context (fun _ => 0) 64 (fun k => sampleOf (bit k)) = some (true, bytes,
      { context with health := hc, entropyThisTime := hc.entropyLevel }) ∧
    (∀ i < 64, outBuf i = bytes i) ∧
    (bitsOfBytes outBuf 64 = cs.map fun c => c.after.prevBit) ∧
    (bitsOfBytes bytes 64 = ds.map fun d => d.after.prevBit) := by
  obtain ⟨dev, hdev⟩ : ∃ dev : Device, dev.health.Fed (512 * 0) :=
    ⟨Kernel.probed.dev, Kernel.infnoiseHealthInit_fed⟩
  obtain ⟨q, hfed⟩ := inmHealthCheckStart_fed tableLog_accurate blankContext.health rfl rfl false
  obtain ⟨context, hcontext⟩ : ∃ context : Context, context.health =
      (inmHealthCheckStart tableLog blankContext.health predictionBits designK false true).2 :=
    ⟨{ blankContext with health := _ }, rfl⟩
  obtain ⟨dev', hextract⟩ := Kernel.infnoiseExtractBytes_fed hdev (by norm_num)
  obtain ⟨bytes', hextract'⟩ := @extractBytes_fed q 0 context (hcontext ▸ hfed) (by norm_num)
    fun _ => 0
  have hbits : (fun k => sampleOf (bit (512 * 0 + k))) = fun k => sampleOf (bit k) := by
    funext k
    rw [Nat.mul_zero, Nat.zero_add]
  rw [hbits] at hextract
  rw [show (registerRound (512 * 0)).inBuf = _ from hbits] at hextract'
  obtain ⟨⟨cs, hk, hkin, hkok⟩, -, -⟩ := Kernel.infnoiseExtractBytes_checked hextract
  obtain ⟨⟨ds, hu, huin, huok⟩, -⟩ := extractBytes_checked hextract'
  obtain ⟨outBuf, bytes, hagree⟩ := extractions_agree (fun _ => 0) hk hkin hkok hu huin huok
  exact ⟨dev, context, outBuf, bytes, cs, ds, dev'.health, _, hagree⟩

end Userspace
